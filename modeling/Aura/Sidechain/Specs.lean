import Aura.ProRata
import Aura.Sidechain.Coordinators

/-!
# Sidechain : what the functions of the coordinators do

One inversion lemma for each function that moves fees or tokens, and for the calls of each
contract one for all of them.
-/

open Evm Function

namespace Aura.Sidechain

open Bridge (ChainId encodePacked requireTrusted)

/-! ## L1Coordinator -/

namespace L1Coordinator

variable {β : Type} {s s' : L1Coordinator β} {sender : Address} {c : ChainId} {n : ℕ}

/-- `s'` is `s` with other settings, and a multiplier within its bound. -/
structure Reconfigured (s s' : L1Coordinator β) (d : Call) : Prop where
  self : s'.self = s.self
  auraOFT : s'.auraOFT = s.auraOFT
  feeDebtOf : s'.feeDebtOf = s.feeDebtOf
  settledFeeDebtOf : s'.settledFeeDebtOf = s.settledFeeDebtOf
  distributedFeeDebtOf : s'.distributedFeeDebtOf = s.distributedFeeDebtOf
  distributed : s'.distributed = s.distributed
  pulled : s'.pulled = s.pulled
  rewardMultiplier : s.rewardMultiplier ≤ rewardMultiplierDenominator →
    s'.rewardMultiplier ≤ rewardMultiplierDenominator
  l2Coordinators : ∀ c, s'.l2Coordinators c = s.l2Coordinators c ∨
    d = .setL2Coordinator c (s'.l2Coordinators c)

/-- What `settleFeeDebt` did. -/
structure Settled (s s' : L1Coordinator β) (c : ChainId) (n : ℕ) : Prop where
  settled_le : s.settledFeeDebtOf c ≤ s.feeDebtOf c
  le : n ≤ s.feeDebtOf c - s.settledFeeDebtOf c
  self : s'.self = s.self
  auraOFT : s'.auraOFT = s.auraOFT
  feeDebtOf : s'.feeDebtOf = s.feeDebtOf
  settledFeeDebtOf : s'.settledFeeDebtOf =
    update s.settledFeeDebtOf c (s.settledFeeDebtOf c + n)
  distributedFeeDebtOf : s'.distributedFeeDebtOf = s.distributedFeeDebtOf
  distributed : s'.distributed = s.distributed
  pulled : s'.pulled = (c, n) :: s.pulled
  rewardMultiplier : s'.rewardMultiplier = s.rewardMultiplier
  l2Coordinators : s'.l2Coordinators = s.l2Coordinators

theorem settleFeeDebt_eq_ok (hs : sender ≠ s.self) (h : s.settleFeeDebt sender c n = .ok s') :
    Settled s s' c n := by
  obtain ⟨hd, h⟩ := require_bind_eq_ok.1 h
  obtain ⟨x, hx, h⟩ := bind_eq_ok.1 h
  obtain ⟨hle, rfl⟩ := usub_eq_ok.1 hx
  obtain ⟨hn, h⟩ := require_bind_eq_ok.1 h
  obtain ⟨y, hy, h⟩ := bind_eq_ok.1 h
  obtain ⟨-, rfl⟩ := uadd_eq_ok.1 hy
  obtain ⟨t, ht, h⟩ := bind_eq_ok.1 h
  cases h
  obtain ⟨-, hbal, hb, -⟩ := Erc20.transferFrom_eq_ok ht
  refine ⟨hle, hn, rfl, rfl, rfl, rfl, rfl, rfl, ?_, rfl, rfl⟩
  -- the whole amount left the bridge delegate, which is not the contract itself
  have hmove : t.balanceOf (s.bridgeDelegates c) =
      (s.tokens s.balToken).balanceOf (s.bridgeDelegates c) - n := by
    rw [hb, move_src _ _ (hd ▸ hs)]
  dsimp only
  rw [hmove, Nat.sub_sub_self hbal]

variable [Booster β]

/-- What `distributeAura` did. Of the AURA that the Booster minted, `reward` is sent to the
sidechain and the rest goes to the treasury. -/
structure Distributed (s s' : L1Coordinator β) (c : ChainId) (ms : List Message)
    (r : β × (Address → Erc20 Address)) (minted reward : ℕ) : Prop where
  le : s.distributedFeeDebtOf c ≤ s.feeDebtOf c
  call : Booster.distributeL2Fees s.boosters s.booster s.self
    (s.feeDebtOf c - s.distributedFeeDebtOf c) s.tokens = .ok r
  balance : (r.2 s.auraToken).balanceOf s.self =
    (s.tokens s.auraToken).balanceOf s.self + minted
  reward_eq : reward = minted * s.rewardMultiplier / rewardMultiplierDenominator
  reward_pos : 0 < reward
  reward_le : reward ≤ minted
  ledger : ∃ b : Address → ℕ, (if 0 < minted - reward then
      b = move (r.2 s.auraToken).balanceOf s.self s.treasury (minted - reward)
      else b = (r.2 s.auraToken).balanceOf) ∧
    (s'.tokens s.auraToken).balanceOf = move b s.self s.auraOFT reward
  coordinator : s.l2Coordinators c ≠ 0
  messages : s.auraOFT ≠ s.self → ms = [.oft c (encodePacked (s.l2Coordinators c)) reward,
    .toL2 c (.feesCallback reward)]
  fees : ∀ m ∈ ms, ∀ c' k, m ≠ .toL1 c' (.fees k)
  self : s'.self = s.self
  auraOFT : s'.auraOFT = s.auraOFT
  feeDebtOf : s'.feeDebtOf = s.feeDebtOf
  settledFeeDebtOf : s'.settledFeeDebtOf = s.settledFeeDebtOf
  distributedFeeDebtOf : s'.distributedFeeDebtOf = update s.distributedFeeDebtOf c (s.feeDebtOf c)
  distributed : s'.distributed =
    (c, s.feeDebtOf c - s.distributedFeeDebtOf c) :: s.distributed
  pulled : s'.pulled = s.pulled
  rewardMultiplier : s'.rewardMultiplier = s.rewardMultiplier
  l2Coordinators : s'.l2Coordinators = s.l2Coordinators

omit [Booster β] in
theorem payTreasury_eq_ok (h : s.payTreasury n = .ok s') :
    ∃ t : Erc20 Address, s' = { s with tokens := update s.tokens s.auraToken t } ∧
      if 0 < n then t.balanceOf = move (s.tokens s.auraToken).balanceOf s.self s.treasury n
      else t.balanceOf = (s.tokens s.auraToken).balanceOf := by
  unfold payTreasury at h
  split_ifs at h ⊢ with hn
  · obtain ⟨t, ht, h⟩ := bind_eq_ok.1 h
    cases h
    exact ⟨t, rfl, (Erc20.transfer_eq_ok ht).2.2.2.1⟩
  · cases h
    exact ⟨s.tokens s.auraToken, by rw [update_eq_self], rfl⟩

omit [Booster β] in
theorem sendAura_eq_ok {dst : Address} {m : Message} (h : s.sendAura c dst n = .ok (s', m)) :
    ∃ (t : Erc20 Address) (k : ℕ), s' = { s with tokens := update s.tokens s.auraToken t } ∧
      t.balanceOf = move (s.tokens s.auraToken).balanceOf s.self s.auraOFT n ∧
      m = .oft c (encodePacked dst) k ∧ (s.auraOFT ≠ s.self → k = n) := by
  obtain ⟨r, hr, h⟩ := bind_eq_ok.1 h
  cases h
  obtain ⟨-, hr⟩ := require_bind_eq_ok.1 hr
  obtain ⟨t, ht, hr⟩ := bind_eq_ok.1 hr
  obtain ⟨k, hk, hr⟩ := bind_eq_ok.1 hr
  cases hr
  obtain ⟨-, rfl⟩ := usub_eq_ok.1 hk
  obtain ⟨-, -, hb, -⟩ := Erc20.transferFrom_eq_ok ht
  refine ⟨t, _, rfl, hb, rfl, fun hne => ?_⟩
  rw [hb, move_dst _ _ hne.symm, Nat.add_sub_cancel_left]

theorem distributeAura_eq_ok {ms : List Message} (h : s.distributeAura sender c = .ok (s', ms)) :
    ∃ r minted reward, Distributed s s' c ms r minted reward := by
  obtain ⟨-, h⟩ := require_bind_eq_ok.1 h
  obtain ⟨x, hx, h⟩ := bind_eq_ok.1 h
  obtain ⟨hle, rfl⟩ := usub_eq_ok.1 hx
  obtain ⟨y, hy, h⟩ := bind_eq_ok.1 h
  obtain ⟨-, rfl⟩ := uadd_eq_ok.1 hy
  unfold _distributeAura at h
  obtain ⟨s₁, hs₁, h⟩ := bind_eq_ok.1 h
  obtain ⟨r, hr, hs₁⟩ := bind_eq_ok.1 hs₁
  cases hs₁
  obtain ⟨hdst, h⟩ := require_bind_eq_ok.1 h
  obtain ⟨minted, hm, h⟩ := bind_eq_ok.1 h
  obtain ⟨hmle, rfl⟩ := usub_eq_ok.1 hm
  obtain ⟨z, hz, h⟩ := bind_eq_ok.1 h
  obtain ⟨-, rfl⟩ := umul_eq_ok.1 hz
  obtain ⟨k, hk, h⟩ := bind_eq_ok.1 h
  obtain ⟨-, rfl⟩ := udiv_eq_ok.1 hk
  obtain ⟨hpos, h⟩ := require_bind_eq_ok.1 h
  obtain ⟨rest, hrest, h⟩ := bind_eq_ok.1 h
  obtain ⟨hkle, rfl⟩ := usub_eq_ok.1 hrest
  obtain ⟨s₂, hs₂, h⟩ := bind_eq_ok.1 h
  obtain ⟨t₂, rfl, ht₂⟩ := payTreasury_eq_ok hs₂
  obtain ⟨-, -, h⟩ := bind_eq_ok.1 h
  obtain ⟨⟨s₃, m⟩, hs₃, h⟩ := bind_eq_ok.1 h
  obtain ⟨t₃, k₃, rfl, ht₃, rfl, hk₃⟩ := sendAura_eq_ok hs₃
  cases h
  refine ⟨r, _, _, hle, hr, (Nat.add_sub_of_le hmle).symm, rfl, hpos, hkle,
    ⟨t₂.balanceOf, ht₂, ?_⟩, hdst, fun hne => ?_, ?_, rfl, rfl, rfl, rfl, ?_, rfl, rfl, rfl, rfl⟩
  · dsimp only at ht₃ ⊢
    rw [update_self, ht₃, update_self]
  · rw [hk₃ hne]
  · simp
  · dsimp only
    rw [Nat.add_sub_of_le hle]

/-- What a call `d` did, and the messages that it sent. -/
inductive Effect (s s' : L1Coordinator β) (d : Call) (ms : List Message) : Prop
  | settings (done : Reconfigured s s' d) (quiet : ms = [])
  | settled {c : ChainId} {n : ℕ} (done : Settled s s' c n) (quiet : ms = [])
  | distributed {c : ChainId} {r : β × (Address → Erc20 Address)} {minted reward : ℕ}
      (done : Distributed s s' c ms r minted reward)

omit [Booster β] in
theorem quiet_eq_ok {x : Tx (L1Coordinator β)} {ms : List Message}
    (h : exec.quiet x = .ok (s', ms)) : x = .ok s' ∧ ms = [] := by
  obtain ⟨s, hs, h⟩ := bind_eq_ok.1 h
  cases h
  exact ⟨hs, rfl⟩

omit [Booster β] in
theorem onlyOwner_bind_eq_ok {f : Unit → Tx (L1Coordinator β)}
    (h : (s.onlyOwner sender >>= f) = .ok s') : f () = .ok s' :=
  (require_bind_eq_ok.1 h).2

theorem exec_effect {d : Call} {ms : List Message} (hs : sender ≠ s.self)
    (h : s.exec sender d = .ok (s', ms)) : Effect s s' d ms := by
  cases d with
  | distributeAura c =>
    obtain ⟨r, minted, reward, hd⟩ := distributeAura_eq_ok h
    exact .distributed hd
  | settleFeeDebt c n =>
    obtain ⟨hx, rfl⟩ := quiet_eq_ok h
    exact .settled (settleFeeDebt_eq_ok hs hx) rfl
  | transferOwnership a =>
    obtain ⟨hx, rfl⟩ := quiet_eq_ok h
    obtain ⟨-, h⟩ := require_bind_eq_ok.1 (onlyOwner_bind_eq_ok hx)
    cases h
    exact .settings ⟨rfl, rfl, rfl, rfl, rfl, rfl, rfl, id, fun _ => .inl rfl⟩ rfl
  | setRewardMultiplier n =>
    obtain ⟨hx, rfl⟩ := quiet_eq_ok h
    obtain ⟨hn, h⟩ := require_bind_eq_ok.1 (onlyOwner_bind_eq_ok hx)
    cases h
    exact .settings ⟨rfl, rfl, rfl, rfl, rfl, rfl, rfl, fun _ => hn, fun _ => .inl rfl⟩ rfl
  | setL2Coordinator c' a =>
    obtain ⟨hx, rfl⟩ := quiet_eq_ok h
    have h := onlyOwner_bind_eq_ok hx
    cases h
    refine .settings ⟨rfl, rfl, rfl, rfl, rfl, rfl, rfl, id, fun c => ?_⟩ rfl
    by_cases hc : c = c'
    · subst hc
      dsimp only
      rw [update_self]
      exact .inr rfl
    · exact .inl (update_of_ne hc _ _)
  | _ =>
    obtain ⟨hx, rfl⟩ := quiet_eq_ok h
    have h := onlyOwner_bind_eq_ok hx
    cases h
    exact .settings ⟨rfl, rfl, rfl, rfl, rfl, rfl, rfl, id, fun _ => .inl rfl⟩ rfl

/-- Only `setL2Coordinator` sets a coordinator. -/
theorem Effect.l2Coordinators {d : Call} {ms : List Message} (h : Effect s s' d ms)
    (c : ChainId) : s'.l2Coordinators c = s.l2Coordinators c ∨
      d = .setL2Coordinator c (s'.l2Coordinators c) := by
  cases h with
  | settings hd _ => exact hd.l2Coordinators c
  | settled hd _ => exact .inl (congrFun hd.l2Coordinators c)
  | distributed hd => exact .inl (congrFun hd.l2Coordinators c)

/-! ### No underflow -/

omit [Booster β] in
theorem sendAura_ne_underflow (s : L1Coordinator β) (c : ChainId) (dst : Address) (n : ℕ) :
    s.sendAura c dst n ≠ .error .underflow := by
  refine bind_ne_underflow ?_ fun _ _ => ok_ne_underflow _
  unfold Bridge.ProxyOft._debitFrom
  refine bind_ne_underflow (require_ne_underflow _) fun _ _ => ?_
  refine bind_ne_underflow (Erc20.transferFrom_ne_underflow _ _ _ _ _) fun t ht => ?_
  refine bind_ne_underflow ?_ fun _ _ => ok_ne_underflow _
  -- the proxy does not lose when it is paid
  obtain ⟨-, hn, hb, -⟩ := Erc20.transferFrom_eq_ok ht
  have hle : (s.tokens s.auraToken).balanceOf s.auraOFT ≤ t.balanceOf s.auraOFT := by
    rw [hb]
    by_cases hne : s.self = s.auraOFT
    · rw [← hne, move_self _ _ hn]
    · rw [move_dst _ _ hne]
      exact Nat.le_add_right _ _
  rw [usub_of hle]
  exact ok_ne_underflow _

/-- A subtraction of `distributeAura` underflows only inside of the Booster. -/
theorem distributeAura_ne_underflow (hmint : MintsToCaller β s.auraToken)
    (hmul : s.rewardMultiplier ≤ rewardMultiplierDenominator)
    (hle : s.distributedFeeDebtOf c ≤ s.feeDebtOf c)
    (hb : Booster.distributeL2Fees s.boosters s.booster s.self
      (s.feeDebtOf c - s.distributedFeeDebtOf c) s.tokens ≠ .error .underflow) (sender : Address) :
    s.distributeAura sender c ≠ .error .underflow := by
  have hfee : AuraMath.sub (s.feeDebtOf c) (s.distributedFeeDebtOf c) = .ok _ := usub_of hle
  unfold distributeAura
  dsimp only
  refine bind_ne_underflow (require_ne_underflow _) fun _ _ => ?_
  rw [hfee, ok_bind]
  refine bind_ne_underflow (uadd_ne_underflow _ _ _) fun _ _ => ?_
  unfold _distributeAura
  refine bind_ne_underflow ?_ fun s₁ hs₁ => ?_
  · exact bind_ne_underflow hb fun _ _ => ok_ne_underflow _
  obtain ⟨r, hr, hs₁⟩ := bind_eq_ok.1 hs₁
  cases hs₁
  obtain ⟨m, hm⟩ := hmint _ _ _ _ _ _ hr
  obtain ⟨-, hbal, -⟩ := Erc20.mint_eq_ok hm
  have hminted : AuraMath.sub ((r.2 s.auraToken).balanceOf s.self)
      ((s.tokens s.auraToken).balanceOf s.self) = .ok m := by
    have hself := congrFun hbal s.self
    rw [update_self] at hself
    dsimp only at hself
    rw [hself, Nat.add_comm]
    exact usub_add_right _ _
  dsimp only
  refine bind_ne_underflow (require_ne_underflow _) fun _ _ => ?_
  rw [hminted, ok_bind]
  refine bind_ne_underflow (umul_ne_underflow _ _ _) fun x hx => ?_
  refine bind_ne_underflow (udiv_ne_underflow _ _) fun k hk => ?_
  refine bind_ne_underflow (require_ne_underflow _) fun _ _ => ?_
  obtain ⟨-, rfl⟩ := umul_eq_ok.1 hx
  obtain ⟨-, rfl⟩ := udiv_eq_ok.1 hk
  have hreward : m * s.rewardMultiplier / rewardMultiplierDenominator ≤ m :=
    ProRata.portion_le s.rewardMultiplier hmul
  refine bind_ne_underflow (by rw [AuraMath.sub, usub_of hreward]; exact ok_ne_underflow _)
    fun _ _ => ?_
  refine bind_ne_underflow ?_ fun s₂ _ => ?_
  · unfold payTreasury
    split_ifs
    · exact bind_ne_underflow (Erc20.transfer_ne_underflow _ _ _ _) fun _ _ => ok_ne_underflow _
    · exact ok_ne_underflow _
  refine bind_ne_underflow (require_ne_underflow _) fun _ _ => ?_
  exact bind_ne_underflow (s₂.sendAura_ne_underflow _ _ _) fun _ _ => ok_ne_underflow _

omit [Booster β] in
theorem settleFeeDebt_ne_underflow (hle : s.settledFeeDebtOf c ≤ s.feeDebtOf c)
    (sender : Address) (n : ℕ) : s.settleFeeDebt sender c n ≠ .error .underflow := by
  have hfee : AuraMath.sub (s.feeDebtOf c) (s.settledFeeDebtOf c) = .ok _ := usub_of hle
  unfold settleFeeDebt
  dsimp only
  refine bind_ne_underflow (require_ne_underflow _) fun _ _ => ?_
  rw [hfee, ok_bind]
  refine bind_ne_underflow (require_ne_underflow _) fun _ _ => ?_
  refine bind_ne_underflow (uadd_ne_underflow _ _ _) fun _ _ => ?_
  exact bind_ne_underflow (Erc20.transferFrom_ne_underflow _ _ _ _ _) fun _ _ => ok_ne_underflow _

end L1Coordinator

/-! ## L2Coordinator -/

namespace L2Coordinator

variable {s s' : L2Coordinator} {sender dst : Address} {c : ChainId} {n : ℕ}

theorem takeRewards_eq_ok {amount : ℕ} (h : s.takeRewards n = .ok (s', amount)) :
    n ≤ s.accBalRewards ∧ amount ≤ s.accAuraRewards ∧ s' = { s with
      accBalRewards := s.accBalRewards - n
      accAuraRewards := s.accAuraRewards - amount } := by
  obtain ⟨rate, -, h⟩ := bind_eq_ok.1 h
  obtain ⟨-, h⟩ := require_bind_eq_ok.1 h
  obtain ⟨x, -, h⟩ := bind_eq_ok.1 h
  obtain ⟨bal, hbal, h⟩ := bind_eq_ok.1 h
  obtain ⟨hn, rfl⟩ := usub_eq_ok.1 hbal
  obtain ⟨aura, haura, h⟩ := bind_eq_ok.1 h
  obtain ⟨ha, rfl⟩ := usub_eq_ok.1 haura
  cases h
  exact ⟨hn, ha, rfl⟩

/-- The fees that a call passes to `queueNewRewards`. -/
def Call.fees : Call → ℕ
  | .queueNewRewards _fees _ => _fees
  | _ => 0

/-- Once the contract is initialized, its two tokens differ. -/
def TokensDiffer (s : L2Coordinator) : Prop :=
  s.booster ≠ 0 → s.balToken ≠ s.auraOFT

/-- What a call `d` did, and the messages that it sent. -/
structure Effect (s s' : L2Coordinator) (c : ChainId) (d : Call) (ms : List Message) : Prop where
  self : s'.self = s.self
  auraOFT : s'.auraOFT = s.auraOFT
  messages : ms = if d = .notifyFees then [.toL1 c (.fees s.pendingNotifyFees)] else []
  pendingNotifyFees : s'.pendingNotifyFees =
    if d = .notifyFees then 0 else s.pendingNotifyFees + d.fees
  balToken : s'.booster = s.booster ∧ s'.balToken = s.balToken ∨
    ∃ _booster, d = .init _booster s'.balToken
  /-- What the contract loses of its AURA, it no longer owes. -/
  held : s.TokensDiffer → s'.accAuraRewards + s.held ≤ s.accAuraRewards + s'.held

theorem quiet_eq_ok {x : Tx L2Coordinator} {ms : List Message}
    (h : exec.quiet x = .ok (s', ms)) : x = .ok s' ∧ ms = [] := by
  obtain ⟨s, hs, h⟩ := bind_eq_ok.1 h
  cases h
  exact ⟨hs, rfl⟩

theorem mint_effect (h : s.mint sender dst n = .ok s') : Effect s s' c (.mint dst n) [] := by
  obtain ⟨-, h⟩ := require_bind_eq_ok.1 h
  obtain ⟨⟨s₁, amount⟩, hr, h⟩ := bind_eq_ok.1 h
  obtain ⟨-, ha, rfl⟩ := takeRewards_eq_ok hr
  obtain ⟨t, ht, h⟩ := bind_eq_ok.1 h
  cases h
  obtain ⟨-, -, -, hb, -⟩ := Erc20.transfer_eq_ok ht
  refine ⟨rfl, rfl, rfl, rfl, .inl ⟨rfl, rfl⟩, fun _ => ?_⟩
  have hheld := le_move_add (s.tokens s.auraOFT).balanceOf s.self dst amount s.self
  unfold held
  dsimp only
  rw [update_self, hb]
  dsimp only
  omega

theorem queueNewRewards_effect {k : ℕ} (hs : sender ≠ 0)
    (h : s.queueNewRewards sender n k = .ok s') :
    Effect s s' c (.queueNewRewards n k) [] := by
  obtain ⟨hbooster, h⟩ := require_bind_eq_ok.1 h
  obtain ⟨-, h⟩ := require_bind_eq_ok.1 h
  obtain ⟨bal, -, h⟩ := bind_eq_ok.1 h
  obtain ⟨pending, hp, h⟩ := bind_eq_ok.1 h
  obtain ⟨-, rfl⟩ := uadd_eq_ok.1 hp
  obtain ⟨t, -, h⟩ := bind_eq_ok.1 h
  cases h
  refine ⟨rfl, rfl, rfl, rfl, .inl ⟨rfl, rfl⟩, fun hne => ?_⟩
  -- the token that moves is not the one that is owed
  have hne := hne (hbooster ▸ hs)
  unfold held
  dsimp only
  rw [update_of_ne hne.symm]

theorem onlyOwner_bind_eq_ok {f : Unit → Tx L2Coordinator}
    (h : (s.onlyOwner sender >>= f) = .ok s') : f () = .ok s' :=
  (require_bind_eq_ok.1 h).2

/-- The other calls do not change the rewards. -/
theorem exec_other {d : Call} {ms : List Message} (hm : ∀ a n, d ≠ .mint a n)
    (hq : ∀ n k, d ≠ .queueNewRewards n k) (h : s.exec c sender d = .ok (s', ms)) :
    Effect s s' c d ms ∧ s'.accBalRewards = s.accBalRewards ∧
      s'.accAuraRewards = s.accAuraRewards := by
  cases d with
  | mint a n => exact absurd rfl (hm a n)
  | queueNewRewards n k => exact absurd rfl (hq n k)
  | notifyFees =>
    obtain ⟨⟨s₁, p⟩, hn, h⟩ := bind_eq_ok.1 h
    obtain ⟨-, -, hn⟩ := bind_eq_ok.1 hn
    cases hn
    cases h
    exact ⟨⟨rfl, rfl, rfl, rfl, .inl ⟨rfl, rfl⟩, fun _ => le_rfl⟩, rfl, rfl⟩
  | transferOwnership a =>
    obtain ⟨hx, rfl⟩ := quiet_eq_ok h
    obtain ⟨-, h⟩ := require_bind_eq_ok.1 (onlyOwner_bind_eq_ok hx)
    cases h
    exact ⟨⟨rfl, rfl, rfl, rfl, .inl ⟨rfl, rfl⟩, fun _ => le_rfl⟩, rfl, rfl⟩
  | init b t =>
    obtain ⟨hx, rfl⟩ := quiet_eq_ok h
    obtain ⟨-, h⟩ := require_bind_eq_ok.1 (onlyOwner_bind_eq_ok hx)
    cases h
    exact ⟨⟨rfl, rfl, rfl, rfl, .inr ⟨b, rfl⟩, fun _ => le_rfl⟩, rfl, rfl⟩
  | _ =>
    obtain ⟨hx, rfl⟩ := quiet_eq_ok h
    have h := onlyOwner_bind_eq_ok hx
    cases h
    exact ⟨⟨rfl, rfl, rfl, rfl, .inl ⟨rfl, rfl⟩, fun _ => le_rfl⟩, rfl, rfl⟩

theorem exec_effect {d : Call} {ms : List Message} (hs : sender ≠ 0)
    (h : s.exec c sender d = .ok (s', ms)) : Effect s s' c d ms := by
  cases d with
  | mint a n =>
    obtain ⟨hx, rfl⟩ := quiet_eq_ok h
    exact mint_effect hx
  | queueNewRewards n k =>
    obtain ⟨hx, rfl⟩ := quiet_eq_ok h
    exact queueNewRewards_effect hs hx
  | _ => exact (exec_other (by simp) (by simp) h).1

theorem creditOft_eq_ok {bs : Bridge.Bytes} (h : s.creditOft bs n = .ok s') :
    ∃ (a : Address) (t : Erc20 Address), Bridge.toAddress bs = .ok a ∧
      (s.tokens s.auraOFT).mint a n = .ok t ∧
      s' = { s with tokens := update s.tokens s.auraOFT t } := by
  obtain ⟨a, ha, h⟩ := bind_eq_ok.1 h
  obtain ⟨t, ht, h⟩ := bind_eq_ok.1 h
  cases h
  exact ⟨a, t, ha, ht, rfl⟩

/-- The AURA that a transfer credits to an account. -/
theorem creditOft_balanceOf {bs : Bridge.Bytes} (h : s.creditOft bs n = .ok s') (b : Address) :
    (s'.tokens s'.auraOFT).balanceOf b = (s.tokens s.auraOFT).balanceOf b +
      if Bridge.toAddress bs = .ok b then n else 0 := by
  obtain ⟨a, t, ha, ht, rfl⟩ := creditOft_eq_ok h
  obtain ⟨-, hb, -⟩ := Erc20.mint_eq_ok ht
  dsimp only
  rw [update_self, hb, ha]
  by_cases hba : b = a
  · subst hba
    rw [update_self, if_pos rfl]
  · rw [update_of_ne hba, if_neg fun h => hba (Except.ok.inj h).symm]
    rfl

end L2Coordinator

/-! ## Deliveries -/

variable {β : Type} {n n' : Coordinators β} {m : Message}

/-- What the receipt of messages can change. -/
structure Delivered (n n' : Coordinators β) : Prop where
  l1 : ∃ feeDebtOf, n'.l1 = { n.l1 with feeDebtOf } ∧ ∀ c, n.l1.feeDebtOf c ≤ feeDebtOf c
  l2 : ∀ c, ∃ accAuraRewards tokens, n'.l2 c = { n.l2 c with accAuraRewards, tokens }

theorem Delivered.refl (n : Coordinators β) : Delivered n n :=
  ⟨⟨n.l1.feeDebtOf, rfl, fun _ => le_rfl⟩, fun _ => ⟨_, _, rfl⟩⟩

theorem setL2_delivered {c : ChainId} {acc : ℕ} {t : Address → Erc20 Address} :
    Delivered n (n.setL2 c { n.l2 c with accAuraRewards := acc, tokens := t }) := by
  refine ⟨⟨n.l1.feeDebtOf, rfl, fun _ => le_rfl⟩, fun c' => ?_⟩
  unfold Coordinators.setL2
  dsimp only
  by_cases hc : c' = c
  · subst hc
    rw [update_self]
    exact ⟨acc, t, rfl⟩
  · rw [update_of_ne hc]
    exact ⟨_, _, rfl⟩

theorem receive_delivered (h : n.receive m = .ok n') : Delivered n n' := by
  cases m with
  | toL1 c p =>
    obtain ⟨l1, hp, h⟩ := bind_eq_ok.1 h
    cases h
    cases p with
    | feesCallback k =>
      cases hp
      exact .refl n
    | fees k =>
      obtain ⟨x, hx, hp⟩ := bind_eq_ok.1 hp
      cases hp
      obtain ⟨-, rfl⟩ := uadd_eq_ok.1 hx
      refine ⟨⟨_, rfl, fun c' => ?_⟩, fun _ => ⟨_, _, rfl⟩⟩
      by_cases hc : c' = c
      · subst hc
        rw [update_self]
        exact Nat.le_add_right _ _
      · rw [update_of_ne hc]
  | toL2 c p =>
    obtain ⟨s, hp, h⟩ := bind_eq_ok.1 h
    cases h
    cases p with
    | fees k =>
      cases hp
      exact setL2_delivered
    | feesCallback k =>
      obtain ⟨x, -, hp⟩ := bind_eq_ok.1 hp
      cases hp
      exact setL2_delivered
  | oft c bs k =>
    obtain ⟨s, hp, h⟩ := bind_eq_ok.1 h
    cases h
    obtain ⟨a, t, -, -, rfl⟩ := L2Coordinator.creditOft_eq_ok hp
    exact setL2_delivered

theorem lzReceive_delivered (h : n.lzReceive m = .ok n') : Delivered n n' := by
  obtain ⟨-, h⟩ := require_bind_eq_ok.1 h
  obtain ⟨-, h⟩ := require_bind_eq_ok.1 h
  cases hr : (n.withMail (n.toMail.deliver m)).receive m with
  | ok n₁ =>
    rw [hr] at h
    cases h
    obtain ⟨hl1, hl2⟩ := receive_delivered hr
    exact ⟨hl1, hl2⟩
  | error e =>
    rw [hr] at h
    cases h
    obtain ⟨hl1, hl2⟩ := Delivered.refl n
    exact ⟨hl1, hl2⟩

theorem lzReceiveOutOfGas_delivered (h : n.lzReceiveOutOfGas m = .ok n') : Delivered n n' := by
  obtain ⟨-, h⟩ := require_bind_eq_ok.1 h
  obtain ⟨-, h⟩ := require_bind_eq_ok.1 h
  cases h
  obtain ⟨hl1, hl2⟩ := Delivered.refl n
  exact ⟨hl1, hl2⟩

theorem retryMessage_delivered (h : n.retryMessage m = .ok n') : Delivered n n' := by
  obtain ⟨-, h⟩ := require_bind_eq_ok.1 h
  obtain ⟨hl1, hl2⟩ := receive_delivered h
  exact ⟨hl1, hl2⟩

/-! ## Calls -/

/-- What a call does. -/
inductive Step [Booster β] (n n' : Coordinators β) : Call → Prop
  | l1 {d : L1Coordinator.Call} {s : L1Coordinator β} {ms : List Message}
      (done : n.l1.Effect s d ms) (eq : n' = { n with l1 := s }.sent ms) : Step n n' (.l1 d)
  | l2 {c : ChainId} {d : L2Coordinator.Call} {s : L2Coordinator} {ms : List Message}
      (done : (n.l2 c).Effect s c d ms) (eq : n' = (n.setL2 c s).sent ms) :
      Step n n' (.l2 c d)
  | delivery {d : Call} (none : ∀ c e, d ≠ .l2 c e) (done : Delivered n n')
      (conserved : ∀ f g, Conserved f g → g n' + outstanding f n' = g n + outstanding f n) :
      Step n n' d

theorem exec_step [Booster β] {sender : Address} {c : Call} (hc : n.IsCaller sender c)
    (h : n.exec sender c = .ok n') : Step n n' c := by
  cases c with
  | l1 d =>
    obtain ⟨⟨s, ms⟩, hx, h⟩ := bind_eq_ok.1 h
    cases h
    exact .l1 (L1Coordinator.exec_effect hc.2 hx) rfl
  | l2 c d =>
    obtain ⟨⟨s, ms⟩, hx, h⟩ := bind_eq_ok.1 h
    cases h
    exact .l2 (L2Coordinator.exec_effect hc.1 hx) rfl
  | lzReceive m =>
    exact .delivery (fun _ _ => nofun) (lzReceive_delivered h) fun _ _ hg => hg.lzReceive h
  | lzReceiveOutOfGas m =>
    exact .delivery (fun _ _ => nofun) (lzReceiveOutOfGas_delivered h)
      fun _ _ hg => hg.lzReceiveOutOfGas h
  | retryMessage m =>
    exact .delivery (fun _ _ => nofun) (retryMessage_delivered h) fun _ _ hg => hg.retryMessage h

end Aura.Sidechain
