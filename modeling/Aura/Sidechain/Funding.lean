import Aura.Sidechain.FeeDebt

/-!
# Sidechain : the AURA behind the rewards

A distribution sends as much AURA as it entitles the sidechain to, in two messages that are
delivered in any order. A transfer that is on its way stands for the tokens and a callback
on its way for the entitlement, so the coordinator of a sidechain owes no more than it holds
and will receive (`Funded`), and `mint` takes from both sides alike.

This is about deployments whose owners name the right contracts. With `auraOFT` as the token
of the rewards, `queueNewRewards` hands the AURA to the bridge delegate.
-/

open Evm Function

namespace Aura.Sidechain

open Bridge (ChainId encodePacked toAddress toAddress_encodePacked)

variable {β : Type} {n n' : Coordinators β} {log : List Event} {c : ChainId}

/-! ## Messages -/

/-- The AURA that a message entitles `c` to. -/
def callbacksTo (c : ChainId) : Message → ℕ
  | .toL2 dstChainId (.feesCallback cvxAmount) => if dstChainId = c then cvxAmount else 0
  | _ => 0

/-- The AURA that a message brings to the account `a` of `c`. -/
def transfersTo (c : ChainId) (a : Address) : Message → ℕ
  | .oft dstChainId toAddressBytes amount =>
    if dstChainId = c then if toAddress toAddressBytes = .ok a then amount else 0 else 0
  | _ => 0

@[simp] theorem callbacksTo_toL2 (c c' : ChainId) (k : ℕ) :
    callbacksTo c (.toL2 c' (.feesCallback k)) = if c' = c then k else 0 :=
  rfl

@[simp] theorem transfersTo_oft (c c' : ChainId) (a : Address) (bs : Bridge.Bytes) (k : ℕ) :
    transfersTo c a (.oft c' bs k) = if c' = c then if toAddress bs = .ok a then k else 0 else 0 :=
  rfl

theorem setL2_l2_self {s : L2Coordinator} : (n.setL2 c s).l2 c = s :=
  update_self _ _ _

theorem setL2_l2_of_ne {c' : ChainId} {s : L2Coordinator} (h : c' ≠ c) :
    (n.setL2 c' s).l2 c = n.l2 c :=
  update_of_ne (Ne.symm h) _ _

/-- A receipt adds to `s` what the message carries for `c`. -/
def Receives (s s' : L2Coordinator) (c : ChainId) (m : Message) : Prop :=
  s'.accAuraRewards = s.accAuraRewards + callbacksTo c m ∧
    ∀ a, (s'.tokens s'.auraOFT).balanceOf a =
      (s.tokens s.auraOFT).balanceOf a + transfersTo c a m

theorem receive_l2 {m : Message} (h : n.receive m = .ok n') (c : ChainId) :
    Receives (n.l2 c) (n'.l2 c) c m := by
  cases m with
  | toL1 c' p =>
    obtain ⟨l1, -, h⟩ := bind_eq_ok.1 h
    cases h
    exact ⟨rfl, fun _ => rfl⟩
  | toL2 c' p =>
    obtain ⟨s, hp, h⟩ := bind_eq_ok.1 h
    cases h
    by_cases hc : c' = c
    · subst hc
      rw [setL2_l2_self]
      cases p with
      | fees k =>
        cases hp
        exact ⟨rfl, fun _ => rfl⟩
      | feesCallback k =>
        obtain ⟨x, hx, hp⟩ := bind_eq_ok.1 hp
        cases hp
        obtain ⟨-, rfl⟩ := uadd_eq_ok.1 hx
        refine ⟨?_, fun _ => rfl⟩
        rw [callbacksTo_toL2, if_pos rfl]
    · rw [setL2_l2_of_ne hc]
      cases p with
      | fees k => exact ⟨rfl, fun _ => rfl⟩
      | feesCallback k =>
        refine ⟨?_, fun _ => rfl⟩
        rw [callbacksTo_toL2, if_neg hc, Nat.add_zero]
  | oft c' bs k =>
    obtain ⟨s, hp, h⟩ := bind_eq_ok.1 h
    cases h
    have hb := L2Coordinator.creditOft_balanceOf hp
    by_cases hc : c' = c
    · subst hc
      rw [setL2_l2_self]
      refine ⟨?_, fun a => ?_⟩
      · obtain ⟨a, t, -, -, rfl⟩ := L2Coordinator.creditOft_eq_ok hp
        rfl
      · rw [transfersTo_oft, if_pos rfl]
        exact hb a
    · rw [setL2_l2_of_ne hc]
      refine ⟨rfl, fun a => ?_⟩
      rw [transfersTo_oft, if_neg hc, Nat.add_zero]

theorem accAuraRewards_conserved (c : ChainId) :
    Conserved (callbacksTo c) (fun n : Coordinators β => (n.l2 c).accAuraRewards) where
  receive h := (receive_l2 h c).1
  messages _ _ := rfl

theorem balanceOf_conserved (c : ChainId) (a : Address) : Conserved (transfersTo c a)
    (fun n : Coordinators β => ((n.l2 c).tokens (n.l2 c).auraOFT).balanceOf a) where
  receive h := (receive_l2 h c).2 a
  messages _ _ := rfl

/-! ## The invariant -/

/-- The coordinator of a sidechain that the owner names to the canonical chain is the one that
is deployed there. -/
def NamesCoordinator (n : Coordinators β) : Call → Prop
  | .l1 (.setL2Coordinator c _l2Coordinator) => _l2Coordinator = (n.l2 c).self
  | _ => True

/-- The token of the rewards of a sidechain is not its AURA. -/
def NamesBal (n : Coordinators β) : Call → Prop
  | .l2 c (.init _ _balToken) => _balToken ≠ (n.l2 c).auraOFT
  | _ => True

/-- The owners name the right contracts. -/
def Configured (n : Coordinators β) (d : Call) : Prop :=
  NamesCoordinator n d ∧ NamesBal n d

instance (n : Coordinators β) (d : Call) : Decidable (NamesCoordinator n d) := by
  unfold NamesCoordinator
  split <;> infer_instance

instance (n : Coordinators β) (d : Call) : Decidable (NamesBal n d) := by
  unfold NamesBal
  split <;> infer_instance

instance (n : Coordinators β) (d : Call) : Decidable (Configured n d) :=
  inferInstanceAs (Decidable (_ ∧ _))

/-- The AURA that a coordinator owes is there or on its way. -/
def Funded (n : Coordinators β) (c : ChainId) : Prop :=
  (n.l2 c).accAuraRewards + outstanding (callbacksTo c) n ≤
    (n.l2 c).held + outstanding (transfersTo c (n.l2 c).self) n

/-- What holds of the coordinator on `c` in the runs of a deployment. -/
structure Sound (n : Coordinators β) (c : ChainId) : Prop where
  self_ne : (n.l2 c).self ≠ 0
  tokens : (n.l2 c).TokensDiffer
  coordinator : n.l1.l2Coordinators c = 0 ∨ n.l1.l2Coordinators c = (n.l2 c).self
  funded : Funded n c

theorem Coordinators.Deployed.sound (h : n.Deployed) (c : ChainId) : Sound n c where
  self_ne := (h.l2 c).self_ne
  tokens hb := absurd (h.l2 c).booster hb
  coordinator := .inl (h.l1.l2Coordinators c)
  funded := by
    unfold Funded outstanding
    rw [(h.l2 c).accAuraRewards, h.mail, Mail.outstanding_empty]
    exact Nat.zero_le _

/-- The settings of a coordinator survive what leaves them as they are. -/
theorem Sound.of_settings (h : Sound n c) (hself : (n'.l2 c).self = (n.l2 c).self)
    (htokens : (n.l2 c).TokensDiffer → (n'.l2 c).TokensDiffer)
    (hl1 : n'.l1.l2Coordinators c = n.l1.l2Coordinators c) (hf : Funded n' c) : Sound n' c where
  self_ne := hself ▸ h.self_ne
  tokens := htokens h.tokens
  coordinator := by
    rw [hl1, hself]
    exact h.coordinator
  funded := hf

theorem Sound.elsewhere (h : Sound n c) (he : n.Elsewhere n') : Sound n' c := by
  obtain ⟨tokens, boosters, hl1⟩ := he.l1
  obtain ⟨tokens₂, hl2, hheld⟩ := he.l2 c
  have hself : (n'.l2 c).self = (n.l2 c).self := by rw [hl2]
  have hacc : (n'.l2 c).accAuraRewards = (n.l2 c).accAuraRewards := by rw [hl2]
  have hfunded := h.funded
  refine h.of_settings hself (by rw [hl2]; exact id) (by rw [hl1]) ?_
  unfold Funded at hfunded ⊢
  rw [hacc, hself, outstanding_congr he.mail, outstanding_congr he.mail]
  omega

theorem Sound.delivered (h : Sound n c) (hd : Delivered n n') (hsum : ∀ f g, Conserved f g →
    g n' + outstanding f n' = g n + outstanding f n) : Sound n' c := by
  obtain ⟨feeDebtOf, hl1, -⟩ := hd.l1
  obtain ⟨acc, tokens, hl2⟩ := hd.l2 c
  have hself : (n'.l2 c).self = (n.l2 c).self := by rw [hl2]
  refine h.of_settings hself (by rw [hl2]; exact id) (by rw [hl1]) ?_
  -- both sides of the inequality keep their sums
  have howed := hsum _ _ (accAuraRewards_conserved c)
  have hheld := hsum _ _ (balanceOf_conserved c (n.l2 c).self)
  have hfunded := h.funded
  unfold Funded L2Coordinator.held at hfunded ⊢
  rw [hself]
  omega

/-- A coordinator on a sidechain gives up no more AURA than it owes less. -/
theorem Sound.l2 {c' : ChainId} {d : L2Coordinator.Call} {s : L2Coordinator} {ms : List Message}
    (h : Sound n c) (hp : NamesBal n (.l2 c' d)) (hd : (n.l2 c').Effect s c' d ms) :
    Sound ((n.setL2 c' s).sent ms) c := by
  have hfunded := h.funded
  have hin : ∀ f : Message → ℕ, (∀ k, f (.toL1 c' (.fees k)) = 0) →
      outstanding f ((n.setL2 c' s).sent ms) = outstanding f n := by
    refine fun f hf => outstanding_sent_of_forall _ fun m hm => ?_
    rw [hd.messages] at hm
    split_ifs at hm
    · rw [List.mem_singleton.1 hm, hf]
    · cases hm
  have hl2 : ((n.setL2 c' s).sent ms).l2 = (n.setL2 c' s).l2 := rfl
  by_cases hc : c' = c
  · subst hc
    have hs : ((n.setL2 c' s).sent ms).l2 c' = s := by rw [hl2, setL2_l2_self]
    refine h.of_settings (by rw [hs, hd.self]) (fun htokens => ?_) rfl ?_
    · rw [hs]
      unfold L2Coordinator.TokensDiffer
      rw [hd.auraOFT]
      obtain ⟨hb, ht⟩ | ⟨b, rfl⟩ := hd.balToken
      · rw [hb, ht]
        exact htokens
      · exact fun _ => hp
    · have hheld := hd.held h.tokens
      unfold Funded at hfunded ⊢
      rw [hin _ fun _ => rfl, hin _ fun _ => rfl, hs, hd.self]
      omega
  · have hother : ((n.setL2 c' s).sent ms).l2 c = n.l2 c := by rw [hl2, setL2_l2_of_ne hc]
    refine h.of_settings (by rw [hother]) (by rw [hother]; exact id) rfl ?_
    unfold Funded at hfunded ⊢
    rw [hin _ fun _ => rfl, hin _ fun _ => rfl, hother]
    exact hfunded

variable [Booster β]

/-- The two messages of a distribution are for the same amount. -/
theorem Distributed.messages_sum {s : L1Coordinator β} {c' : ChainId} {ms : List Message}
    {r : β × (Address → Erc20 Address)} {minted reward : ℕ} (h : Sound n c)
    (hd : L1Coordinator.Distributed n.l1 s c' ms r minted reward)
    (hne : n.l1.auraOFT ≠ n.l1.self) :
    (ms.map (callbacksTo c)).sum = (ms.map (transfersTo c (n.l2 c).self)).sum := by
  rw [hd.messages hne]
  by_cases hc : c' = c
  · subst hc
    have hdst := h.coordinator.resolve_left hd.coordinator
    rw [hdst]
    simp [callbacksTo, transfersTo, toAddress_encodePacked]
  · simp [callbacksTo, transfersTo, hc]

theorem Sound.l1 {d : L1Coordinator.Call} {s : L1Coordinator β} {ms : List Message}
    (h : Sound n c) (hne : n.l1.auraOFT ≠ n.l1.self) (hp : NamesCoordinator n (.l1 d))
    (hd : n.l1.Effect s d ms) : Sound ({ n with l1 := s }.sent ms) c := by
  have hfunded := h.funded
  refine ⟨h.self_ne, h.tokens, ?_, ?_⟩
  · change s.l2Coordinators c = 0 ∨ s.l2Coordinators c = (n.l2 c).self
    obtain hs | rfl := hd.l2Coordinators c
    · rw [hs]
      exact h.coordinator
    · exact .inr hp
  · have hms : (ms.map (callbacksTo c)).sum = (ms.map (transfersTo c (n.l2 c).self)).sum := by
      cases hd with
      | settings _ hq => rw [hq]; rfl
      | settled _ hq => rw [hq]; rfl
      | distributed hd => exact Distributed.messages_sum h hd hne
    unfold Funded at hfunded ⊢
    rw [outstanding_sent, outstanding_sent]
    change (n.l2 c).accAuraRewards + (outstanding (callbacksTo c) n + _) ≤ (n.l2 c).held +
      (outstanding (transfersTo c (n.l2 c).self) n + (ms.map (transfersTo c (n.l2 c).self)).sum)
    omega

theorem Run.sound (h : Run Configured log n) (c : ChainId) : Sound n c := by
  induction h with
  | deployed h => exact h.sound c
  | elsewhere _ he ih => exact ih.elsewhere he
  | call hrun hc hp hx ih =>
    cases exec_step hc hx with
    | l1 hd heq =>
      subst heq
      exact ih.l1 hrun.settings.1 hp.1 hd
    | l2 hd heq =>
      subst heq
      exact ih.l2 hp.2 hd
    | delivery _ hd hsum => exact ih.delivered hd hsum

omit [Booster β] in
/-- When all the AURA has arrived, the coordinator can pay what it owes. -/
theorem Sound.mint {_amount amount : ℕ} {s : L2Coordinator} (h : Sound n c)
    (hout : outstanding (transfersTo c (n.l2 c).self) n = 0)
    (hr : (n.l2 c).takeRewards _amount = .ok (s, amount)) :
    amount ≤ (n.l2 c).held ∧
      ∀ _to, _to ≠ 0 → ∃ s', (n.l2 c).mint (n.l2 c).booster _to _amount = .ok s' := by
  obtain ⟨-, ha, -⟩ := L2Coordinator.takeRewards_eq_ok hr
  have hheld : amount ≤ (n.l2 c).held := by
    have hfunded := h.funded
    unfold Funded at hfunded
    omega
  refine ⟨hheld, fun dst hdst => ?_⟩
  obtain ⟨t, ht⟩ := Erc20.exists_transfer _ h.self_ne hdst hheld
  refine ⟨{ s with tokens := update (n.l2 c).tokens (n.l2 c).auraOFT t }, ?_⟩
  unfold L2Coordinator.mint
  rw [require_of rfl, ok_bind, hr, ok_bind, ht, ok_bind]

/-! ## Distributions -/

/-- What the Booster minted for a distribution to `c` went to `c` and to the treasury. -/
def Spent (n : Coordinators β) (c : ChainId) (s : L1Coordinator β)
    (ms : List Message) : Prop :=
  ∃ (r : β × (Address → Erc20 Address)) (reward toTreasury : ℕ),
    Booster.distributeL2Fees n.l1.boosters n.l1.booster n.l1.self
      (n.l1.feeDebtOf c - n.l1.distributedFeeDebtOf c) n.l1.tokens = .ok r ∧
    (n.l1.tokens n.l1.auraToken).mint n.l1.self (reward + toTreasury) =
      .ok (r.2 n.l1.auraToken) ∧
    ms = [.oft c (encodePacked (n.l2 c).self) reward, .toL2 c (.feesCallback reward)] ∧
    (s.tokens n.l1.auraToken).balanceOf =
      move (move (r.2 n.l1.auraToken).balanceOf n.l1.self n.l1.treasury toTreasury)
        n.l1.self n.l1.auraOFT reward

theorem Sound.distribution {sender : Address} {s : L1Coordinator β} {ms : List Message}
    (h : Sound n c) (hne : n.l1.auraOFT ≠ n.l1.self) (hmint : MintsToCaller β n.l1.auraToken)
    (hx : n.l1.distributeAura sender c = .ok (s, ms)) : Spent n c s ms := by
  obtain ⟨r, minted, reward, hd⟩ := L1Coordinator.distributeAura_eq_ok hx
  obtain ⟨m, hm⟩ := hmint _ _ _ _ _ _ hd.call
  -- what the coordinator sees of the mint is all of it
  have hminted : m = minted := by
    have hself := congrFun (Erc20.mint_eq_ok hm).2.1 n.l1.self
    have hbalance := hd.balance
    rw [update_self] at hself
    omega
  have hreward := hd.reward_le
  refine ⟨r, reward, minted - reward, hd.call, ?_, ?_, ?_⟩
  · rw [Nat.add_sub_of_le hreward, ← hminted, hm]
  · rw [hd.messages hne, h.coordinator.resolve_left hd.coordinator]
  · obtain ⟨b, hb, hs⟩ := hd.ledger
    rw [hs]
    split_ifs at hb with hpos
    · rw [hb]
    · rw [hb, Nat.eq_zero_of_not_pos hpos, move_zero]

/-- In every run with the right contracts the coordinators of the sidechains are funded, and
each distribution sends on exactly what was minted for it. -/
theorem rewards_funded (h : Run Configured log n) (c : ChainId) :
    Funded n c ∧
    (outstanding (transfersTo c (n.l2 c).self) n = 0 → ∀ _amount s amount,
      (n.l2 c).takeRewards _amount = .ok (s, amount) → amount ≤ (n.l2 c).held ∧
        ∀ _to, _to ≠ 0 → ∃ s', (n.l2 c).mint (n.l2 c).booster _to _amount = .ok s') ∧
    (MintsToCaller β n.l1.auraToken → ∀ sender s ms,
      n.l1.distributeAura sender c = .ok (s, ms) → Spent n c s ms) := by
  have hs := h.sound c
  exact ⟨hs.funded, fun hout _ _ _ hr => hs.mint hout hr,
    fun hmint _ _ _ hx => hs.distribution h.settings.1 hmint hx⟩

/-- A run in which the AURA of one distribution has arrived, and another one is due. -/
theorem rewards_funded_run : ∃ n : Coordinators (FeeBooster 102 103),
    Run Configured (setup 202 ++ feesToAura ++ auraArrives ++ nextFees) n ∧ Funded n 110 ∧
      (∃ s', (n.l2 110).mint (n.l2 110).booster 600 500 = .ok s') ∧
      ∃ (r : FeeBooster 102 103 × (Address → Erc20 Address)) (reward toTreasury : ℕ),
        (n.l1.tokens n.l1.auraToken).mint n.l1.self (reward + toTreasury) =
          .ok (r.2 n.l1.auraToken) := by
  obtain ⟨n, hn⟩ := Tx.exists_ok (show (play Configured deployment
    (setup 202 ++ feesToAura ++ auraArrives ++ nextFees)).returns = true by decide +kernel)
  have h : Run Configured ([] ++ (setup 202 ++ feesToAura ++ auraArrives ++ nextFees)) n :=
    (Run.deployed deployment_deployed).play hn
  have hv : (play Configured deployment
      (setup 202 ++ feesToAura ++ auraArrives ++ nextFees)).map (fun n =>
        (outstanding (transfersTo 110 (n.l2 110).self) n, ((n.l2 110).takeRewards 500).returns,
          (n.l1.distributeAura 108 110).returns, n.l1.auraToken)) = .ok (0, true, true, 103) := by
    decide +kernel
  rw [hn] at hv
  obtain ⟨hout, htake, hdist, htoken⟩ :
      outstanding (transfersTo 110 (n.l2 110).self) n = 0 ∧
        ((n.l2 110).takeRewards 500).returns = true ∧
        (n.l1.distributeAura 108 110).returns = true ∧ n.l1.auraToken = 103 := by
    have hv := Except.ok.inj hv
    simpa using hv
  obtain ⟨⟨s, amount⟩, hr⟩ := Tx.exists_ok htake
  obtain ⟨⟨s₁, ms⟩, hx⟩ := Tx.exists_ok hdist
  obtain ⟨hfunded, hmint, hdistribution⟩ := rewards_funded h 110
  have hmints : MintsToCaller (FeeBooster 102 103) n.l1.auraToken := by
    rw [htoken]
    exact FeeBooster.mintsToCaller 102 103
  obtain ⟨r, reward, toTreasury, -, hminted, -, -⟩ := hdistribution hmints 108 s₁ ms hx
  exact ⟨n, h, hfunded, (hmint hout 500 s amount hr).2 600 (by decide), r, reward, toTreasury,
    hminted⟩

/-- When the token of the rewards is the AURA of the sidechain, the coordinator owes AURA that
it neither holds nor will receive. -/
theorem not_funded_of_same_token : ∃ n : Coordinators (FeeBooster 102 103),
    Run NamesCoordinator (setup 204 ++ feesToAura ++ auraArrives ++ nextFees) n ∧
      (n.l2 110).held + outstanding (transfersTo 110 (n.l2 110).self) n = 0 ∧
      (n.l2 110).accAuraRewards = 2604 ∧ ¬ Funded n 110 := by
  obtain ⟨n, hn⟩ := Tx.exists_ok (show (play NamesCoordinator deployment
    (setup 204 ++ feesToAura ++ auraArrives ++ nextFees)).returns = true by decide +kernel)
  have h : Run NamesCoordinator ([] ++ (setup 204 ++ feesToAura ++ auraArrives ++ nextFees)) n :=
    (Run.deployed deployment_deployed).play hn
  have hv : (play NamesCoordinator deployment
      (setup 204 ++ feesToAura ++ auraArrives ++ nextFees)).map (fun n =>
        ((n.l2 110).held + outstanding (transfersTo 110 (n.l2 110).self) n,
          (n.l2 110).accAuraRewards)) = .ok (0, 2604) := by
    decide +kernel
  rw [hn] at hv
  obtain ⟨hheld, howed⟩ : (n.l2 110).held + outstanding (transfersTo 110 (n.l2 110).self) n = 0 ∧
      (n.l2 110).accAuraRewards = 2604 := by
    have hv := Except.ok.inj hv
    simpa using hv
  refine ⟨n, h, hheld, howed, fun hf => ?_⟩
  unfold Funded at hf
  omega

end Aura.Sidechain
