import Aura.Compounder.Previews
import Aura.ProRata

/-!
# Bridge : what the functions of AuraBalProxyOFT do

One statement for a debit (`Debited`), a credit (`Credited`), a harvest (`HarvestDone`) and
the processing of a claimable reward (`Processed`).
-/

open Evm Function SharePool Finset

namespace Aura.Bridge

open Compounder (Vault VaultCall)
open Compounder.Vault (Deposited Redeemed SameConfig)

namespace AuraBalProxy

variable {s s' : AuraBalProxy} {n : ℕ}

/-! ## Ledgers -/

/-- What only moves tokens. -/
structure Moved (s s' : AuraBalProxy) : Prop where
  self : s'.self = s.self
  innerToken : s'.innerToken = s.innerToken
  shares : s'.vault.shares = s.vault.shares
  total : s'.vault.totalUnderlying = s.vault.totalUnderlying
  config : SameConfig s.vault s'.vault
  extraRewards : s'.extraRewards = s.extraRewards
  internalTotalSupply : s'.internalTotalSupply = s.internalTotalSupply
  harvestSrcChainIds : s'.harvestSrcChainIds = s.harvestSrcChainIds
  totalClaimable : s'.totalClaimable = s.totalClaimable
  claimable : s'.claimable = s.claimable
  credits : s'.credits = s.credits
  rounded : s'.rounded = s.rounded

theorem Moved.refl (s : AuraBalProxy) : Moved s s :=
  ⟨rfl, rfl, rfl, rfl, ⟨rfl, rfl, rfl, rfl⟩, rfl, rfl, rfl, rfl, rfl, rfl, rfl⟩

theorem Moved.trans {s₁ s₂ s₃ : AuraBalProxy} (h₁ : Moved s₁ s₂) (h₂ : Moved s₂ s₃) :
    Moved s₁ s₃ where
  self := h₂.self.trans h₁.self
  innerToken := h₂.innerToken.trans h₁.innerToken
  shares := h₂.shares.trans h₁.shares
  total := h₂.total.trans h₁.total
  config := ⟨h₂.config.self.trans h₁.config.self, h₂.config.owner.trans h₁.config.owner,
    h₂.config.strategy.trans h₁.config.strategy,
    h₂.config.withdrawalPenalty.trans h₁.config.withdrawalPenalty⟩
  extraRewards := h₂.extraRewards.trans h₁.extraRewards
  internalTotalSupply := h₂.internalTotalSupply.trans h₁.internalTotalSupply
  harvestSrcChainIds := h₂.harvestSrcChainIds.trans h₁.harvestSrcChainIds
  totalClaimable := h₂.totalClaimable.trans h₁.totalClaimable
  claimable := h₂.claimable.trans h₁.claimable
  credits := h₂.credits.trans h₁.credits
  rounded := h₂.rounded.trans h₁.rounded

theorem setLedger_moved (s : AuraBalProxy) (token : Address) (t : Erc20 Address) :
    Moved s (s.setLedger token t) := by
  unfold setLedger
  split_ifs
  · exact ⟨rfl, rfl, rfl, rfl, ⟨rfl, rfl, rfl, rfl⟩, rfl, rfl, rfl, rfl, rfl, rfl, rfl⟩
  · exact ⟨rfl, rfl, rfl, rfl, ⟨rfl, rfl, rfl, rfl⟩, rfl, rfl, rfl, rfl, rfl, rfl, rfl⟩

theorem balance_setLedger (s : AuraBalProxy) (token : Address) (t : Erc20 Address) (k : Address) :
    (s.setLedger token t).balance k = if k = token then t.balanceOf s.self else s.balance k := by
  by_cases htoken : token = s.innerToken
  · subst htoken
    by_cases hk : k = s.innerToken
    · simp [setLedger, balance, ledger, hk]
    · simp [setLedger, balance, ledger, hk]
  · by_cases hk : k = token
    · subst hk
      simp [setLedger, balance, ledger, htoken]
    · by_cases hki : k = s.innerToken
      · subst hki
        simp [setLedger, balance, ledger, htoken, hk]
      · simp [setLedger, balance, ledger, htoken, hk, hki]

/-! ## Debit and credit -/

/-- A debit staked `n`. -/
structure Debited (s s' : AuraBalProxy) (n : ℕ) : Prop where
  self : s'.self = s.self
  innerToken : s'.innerToken = s.innerToken
  vault : ∃ m, Deposited s.vault s'.vault s.self n m
  tokens : s'.tokens = s.tokens
  extraRewards : s'.extraRewards = s.extraRewards
  internalTotalSupply : s'.internalTotalSupply = s.internalTotalSupply + n
  totalClaimable : s'.totalClaimable = s.totalClaimable
  claimable : s'.claimable = s.claimable
  credits : s'.credits = s.credits
  rounded : s'.rounded = s.rounded + s.rounding n

/-- A credit of `n` to `dst`. -/
structure Credited (s s' : AuraBalProxy) (dst : Address) (n : ℕ) : Prop where
  self : s'.self = s.self
  innerToken : s'.innerToken = s.innerToken
  vault : ∃ m x, Redeemed s.vault s'.vault s.self s.self m x ∧ 0 < s.vault.totalUnderlying ∧
    m = ceilShares s.vault.totalSupply s.vault.totalUnderlying n
  tokens : s'.tokens = s.tokens
  extraRewards : s'.extraRewards = s.extraRewards
  internalTotalSupply :
    s'.internalTotalSupply + (if dst = s.self then 0 else n) = s.internalTotalSupply
  totalClaimable : s'.totalClaimable = s.totalClaimable
  claimable : s'.claimable = s.claimable
  credits : s'.credits = (dst, n) :: s.credits
  rounded : s'.rounded = s.rounded + s.rounding n

theorem setLedger_inner (s : AuraBalProxy) (t : Erc20 Address) :
    s.setLedger s.innerToken t = { s with vault := { s.vault with underlying := t } } :=
  if_pos rfl

theorem debitFrom_eq_ok {sender src : Address} {r : AuraBalProxy × ℕ}
    (h : s._debitFrom sender src n = .ok r) : Debited s r.1 r.2 := by
  unfold _debitFrom at h
  obtain ⟨q, -, h⟩ := bind_eq_ok.1 h
  obtain ⟨⟨s₁, k⟩, h₁, h⟩ := bind_eq_ok.1 h
  obtain ⟨i, hi, h⟩ := bind_eq_ok.1 h
  obtain ⟨-, rfl⟩ := uadd_eq_ok.1 hi
  cases h
  rw [setLedger_inner] at h₁
  unfold _stakeAll at h₁
  obtain ⟨⟨v, m⟩, hv, h₁⟩ := bind_eq_ok.1 h₁
  cases h₁
  have hd := Compounder.Vault.deposit_eq_ok hv
  have hc := hd.config
  exact ⟨rfl, rfl, ⟨m, hd.pos, hd.total, hd.supply, hd.balance, hd.allowance, hd.shares,
    hc.self, hc.owner, hc.strategy, hc.withdrawalPenalty⟩, rfl, rfl, rfl, rfl, rfl, rfl, rfl⟩

/-- Without a penalty, the shares for an amount of assets are rounded up. -/
theorem previewWithdraw_eq_ok {v : Vault} {m : ℕ} (hp : v.withdrawalPenalty = 0)
    (hS : 0 < v.totalSupply) (h : v.previewWithdraw n = .ok m) :
    0 < v.totalUnderlying ∧ m = ceilShares v.totalSupply v.totalUnderlying n := by
  obtain ⟨-, -, -, hT, hm⟩ := (Compounder.Vault.previewWithdraw_iff hS).1 h
  rw [hp, Fee.gross_zero (by decide)] at hm
  exact ⟨hT, hm⟩

theorem withdraw_eq_ok (h : s._withdraw n = .ok s') :
    (∃ m x, Redeemed s.vault s'.vault s.self s.self m x ∧ 0 < s.vault.totalUnderlying ∧
      m = ceilShares s.vault.totalSupply s.vault.totalUnderlying n) ∧
    s' = { s with vault := s'.vault, rounded := s.rounded + s.rounding n } := by
  unfold _withdraw at h
  obtain ⟨v₁, h₁, h⟩ := bind_eq_ok.1 h
  obtain ⟨⟨v₂, x⟩, h₂, h⟩ := bind_eq_ok.1 h
  obtain ⟨v₃, h₃, h⟩ := bind_eq_ok.1 h
  obtain ⟨-, h⟩ := require_bind_eq_ok.1 h
  cases h
  refine ⟨?_, rfl⟩
  obtain ⟨-, h₁⟩ := require_bind_eq_ok.1 h₁
  obtain ⟨-, h₁⟩ := require_bind_eq_ok.1 h₁
  cases h₁
  obtain ⟨m, hm, h₂⟩ := bind_eq_ok.1 h₂
  have hr := Compounder.Vault.redeem_eq_ok h₂
  obtain ⟨hT, hm⟩ := previewWithdraw_eq_ok rfl hr.pos hm
  obtain ⟨-, h₃⟩ := require_bind_eq_ok.1 h₃
  obtain ⟨-, h₃⟩ := require_bind_eq_ok.1 h₃
  cases h₃
  have hc := hr.config
  exact ⟨m, x, ⟨hr.allowed, hr.pos, hr.le, hr.supply, hr.balance, hr.allowance, hr.paid,
    hc.self, hc.owner, hc.strategy, rfl⟩, hT, hm⟩

theorem creditTo_eq_ok {dst : Address} {r : AuraBalProxy × ℕ}
    (h : s._creditTo dst n = .ok r) : Credited s r.1 dst n := by
  unfold _creditTo at h
  obtain ⟨s₁, h₁, h⟩ := bind_eq_ok.1 h
  obtain ⟨q, hq, h⟩ := bind_eq_ok.1 h
  obtain ⟨i, hi, h⟩ := bind_eq_ok.1 h
  obtain ⟨hle, rfl⟩ := usub_eq_ok.1 hi
  cases h
  rw [setLedger_inner] at hle ⊢
  obtain ⟨⟨m, x, hr, hT, hm⟩, hs₁⟩ := withdraw_eq_ok h₁
  have hself : s₁.self = s.self := by rw [hs₁]
  obtain ⟨-, hk⟩ := ProxyOft.creditTo_eq_ok hq
  have hc := hr.config
  refine ⟨hself, by rw [hs₁], ⟨m, x, ⟨hr.allowed, hr.pos, hr.le, hr.supply, hr.balance,
    hr.allowance, hr.paid, hc.self, hc.owner, hc.strategy, hc.withdrawalPenalty⟩, hT, hm⟩,
    by rw [hs₁], by rw [hs₁], ?_, by rw [hs₁], by rw [hs₁], by rw [hs₁], by rw [hs₁]⟩
  rw [← hself, ← hk]
  have : s₁.internalTotalSupply = s.internalTotalSupply := by rw [hs₁]
  rw [← this]
  exact Nat.sub_add_cancel hle

/-! ## Harvests -/

theorem getReward_eq_ok {e : ExtraReward} (h : s.getReward e = .ok s') :
    Moved s s' ∧ (∀ k, s.balance k ≤ s'.balance k) ∧
      ∀ k, k ≠ e.rewardToken → s'.balance k = s.balance k := by
  unfold getReward at h
  obtain ⟨t, ht, h⟩ := bind_eq_ok.1 h
  cases h
  obtain ⟨-, -, hn, hb, -, -⟩ := Erc20.transfer_eq_ok ht
  have hm := setLedger_moved s e.rewardToken t
  refine ⟨⟨hm.self, hm.innerToken, hm.shares, hm.total, hm.config, hm.extraRewards,
    hm.internalTotalSupply, hm.harvestSrcChainIds, hm.totalClaimable, hm.claimable, hm.credits,
    hm.rounded⟩, fun k => ?_, fun k hk => (balance_setLedger s e.rewardToken t k).trans (if_neg hk)⟩
  show s.balance k ≤ (s.setLedger e.rewardToken t).balance k
  rw [balance_setLedger]
  split_ifs with hk
  · rw [hk, hb]
    by_cases hp : e.pool = s.self
    · rw [hp] at hn ⊢
      rw [move_self _ _ hn]
      exact le_rfl
    · rw [move_dst _ _ hp]
      exact Nat.le_add_right _ _
  · exact le_rfl

/-- Of an entry that occurs once and in the tail, the head is another. -/
theorem count_eq_one_of_cons {x y : Address} {xs : List Address} (h : (y :: xs).count x = 1)
    (hx : x ∈ xs) : x ≠ y ∧ xs.count x = 1 := by
  have hpos : 0 < xs.count x := List.count_pos_iff.2 hx
  have hne : x ≠ y := by
    rintro rfl
    rw [List.count_cons_self] at h
    omega
  rw [List.count_cons_of_ne hne.symm] at h
  exact ⟨hne, h⟩

/-- What a harvest takes out of the balance of an extra reward token : all but what waits
to be claimed. -/
theorem processExtraReward_eq_ok {r r' : AuraBalProxy × List HarvestToken} {e : ExtraReward}
    (h : processExtraReward r e = .ok r') :
    Moved r.1 r'.1 ∧ (∀ k, r.1.balance k ≤ r'.1.balance k) ∧
      (∀ k, k ≠ e.rewardToken → r'.1.balance k = r.1.balance k) ∧ ∃ n,
      r'.2 = r.2 ++ [⟨e.rewardToken, n⟩] ∧
        n + r'.1.totalClaimable e.rewardToken = r'.1.balance e.rewardToken := by
  unfold processExtraReward at h
  obtain ⟨s₁, h₁, h⟩ := bind_eq_ok.1 h
  obtain ⟨n, hn, h⟩ := bind_eq_ok.1 h
  obtain ⟨hle, rfl⟩ := usub_eq_ok.1 hn
  cases h
  obtain ⟨hm, hb, hk⟩ := getReward_eq_ok h₁
  exact ⟨hm, hb, hk, _, rfl, Nat.sub_add_cancel hle⟩

/-- The tokens to harvest, after the first : one for each pool, of which the proxy holds what
is harvested and what waits to be claimed, and nothing else if it is the only pool of the
token. -/
theorem processExtraRewards_eq_ok :
    ∀ {es : List ExtraReward} {r r' : AuraBalProxy × List HarvestToken},
      es.foldlM processExtraReward r = .ok r' →
      Moved r.1 r'.1 ∧ (∀ k, r.1.balance k ≤ r'.1.balance k) ∧
      (∀ k, k ∉ es.map ExtraReward.rewardToken → r'.1.balance k = r.1.balance k) ∧
      ∃ hs : List HarvestToken,
        r'.2 = r.2 ++ hs ∧ hs.map HarvestToken.token = es.map ExtraReward.rewardToken ∧
          (∀ h ∈ hs, h.rewards + r.1.totalClaimable h.token ≤ r'.1.balance h.token) ∧
          ∀ h ∈ hs, (hs.map HarvestToken.token).count h.token = 1 →
            h.rewards + r.1.totalClaimable h.token = r'.1.balance h.token
  | [], r, r', h => by
    cases h
    exact ⟨.refl _, fun _ => le_rfl, fun _ _ => rfl, [], by simp, rfl, by simp, by simp⟩
  | e :: es, r, r', h => by
    rw [List.foldlM_cons] at h
    obtain ⟨r₁, h₁, h⟩ := bind_eq_ok.1 h
    obtain ⟨hm₁, hb₁, hk₁, n, hr₁, hn⟩ := processExtraReward_eq_ok h₁
    obtain ⟨hm, hb, hk, hs, hr, hmap, hle, heq⟩ := processExtraRewards_eq_ok h
    refine ⟨hm₁.trans hm, fun k => (hb₁ k).trans (hb k), fun k hne => ?_,
      ⟨e.rewardToken, n⟩ :: hs, ?_, ?_, ?_, ?_⟩
    · rw [List.map_cons, List.mem_cons, not_or] at hne
      rw [hk k hne.2, hk₁ k hne.1]
    · rw [hr, hr₁, List.append_assoc, List.singleton_append]
    · rw [List.map_cons, hmap, List.map_cons]
    · intro h' hh'
      rcases List.mem_cons.1 hh' with rfl | hh'
      · rw [← hm₁.totalClaimable]
        exact hn.trans_le (hb _)
      · rw [← hm₁.totalClaimable]
        exact hle h' hh'
    · intro h' hh' hcount
      rw [List.map_cons] at hcount
      rcases List.mem_cons.1 hh' with rfl | hh'
      · -- the later pools pay other tokens
        rw [List.count_cons_self, Nat.add_eq_right, List.count_eq_zero, hmap] at hcount
        rw [← hm₁.totalClaimable, hk _ hcount]
        exact hn
      · rw [← hm₁.totalClaimable]
        exact heq h' hh' (count_eq_one_of_cons hcount (List.mem_map_of_mem hh')).2

/-- The auraBAL to harvest. -/
theorem underlyingRewards_eq_ok (h : s.underlyingRewards = .ok n) :
    0 < s.vault.totalSupply ∧ n + s.totalClaimable s.innerToken + s.internalTotalSupply =
      s.vault.shares.balanceOf s.self * s.vault.totalUnderlying / s.vault.totalSupply := by
  unfold underlyingRewards at h
  obtain ⟨u, hu, h⟩ := bind_eq_ok.1 h
  obtain ⟨x, hx, h⟩ := bind_eq_ok.1 h
  obtain ⟨hle, rfl⟩ := usub_eq_ok.1 hx
  obtain ⟨hle', rfl⟩ := usub_eq_ok.1 h
  unfold Compounder.Vault.balanceOfUnderlying at hu
  obtain ⟨hS, hu⟩ := require_bind_eq_ok.1 hu
  obtain ⟨y, hy, hu⟩ := bind_eq_ok.1 hu
  obtain ⟨-, rfl⟩ := umul_eq_ok.1 hy
  obtain ⟨-, rfl⟩ := udiv_eq_ok.1 hu
  exact ⟨hS, by omega⟩

/-- The portions of one token for the chains. -/
theorem harvestChains_eq_ok {rewards sum : ℕ} :
    ∀ {es : List (ChainId × ℕ)} {d d' : Harvested},
      es.foldlM (harvestChain rewards sum) d = .ok d' →
      ∑ c, d'.claimable c = ∑ c, d.claimable c +
          (es.map fun e => ProRata.portion rewards sum e.2).sum ∧
        d'.totalHarvested = d.totalHarvested +
          (es.map fun e => ProRata.portion rewards sum e.2).sum ∧
        d'.accUnderlying = d.accUnderlying + (es.map Prod.snd).sum ∧ (es = [] ∨ sum ≠ 0)
  | [], d, d', h => by
    cases h
    simp
  | e :: es, d, d', h => by
    rw [List.foldlM_cons] at h
    obtain ⟨d₁, h₁, h⟩ := bind_eq_ok.1 h
    obtain ⟨hc, ht, ha, -⟩ := harvestChains_eq_ok h
    unfold harvestChain at h₁
    obtain ⟨x, hx, h₁⟩ := bind_eq_ok.1 h₁
    obtain ⟨-, rfl⟩ := umul_eq_ok.1 hx
    obtain ⟨y, hy, h₁⟩ := bind_eq_ok.1 h₁
    obtain ⟨hsum, rfl⟩ := udiv_eq_ok.1 hy
    obtain ⟨z, hz, h₁⟩ := bind_eq_ok.1 h₁
    obtain ⟨-, rfl⟩ := uadd_eq_ok.1 hz
    obtain ⟨w, hw, h₁⟩ := bind_eq_ok.1 h₁
    obtain ⟨-, rfl⟩ := uadd_eq_ok.1 hw
    obtain ⟨q, hq, h₁⟩ := bind_eq_ok.1 h₁
    obtain ⟨-, rfl⟩ := uadd_eq_ok.1 hq
    cases h₁
    have hupd := sum_update_of_add d.claimable e.1 (rewards * e.2 / sum)
    have hport : ProRata.portion rewards sum e.2 = rewards * e.2 / sum := rfl
    simp only [List.map_cons, List.sum_cons]
    dsimp only at hc ht ha
    refine ⟨by omega, by omega, by omega, .inr hsum⟩

/-- One token of a harvest : `n` is added to what is claimable, and to its total. -/
structure Allocated (s s' : AuraBalProxy) (token : Address) (n : ℕ) : Prop where
  rest : s' = { s with claimable := s'.claimable, totalClaimable := s'.totalClaimable }
  total : s'.totalClaimable = update s.totalClaimable token (s.totalClaimable token + n)
  others : ∀ k, k ≠ token → s'.claimable k = s.claimable k
  sum : ∑ c, s'.claimable token c = ∑ c, s.claimable token c + n

theorem harvestToken_eq_ok {us : List ℕ} {sum : ℕ} {r r' : AuraBalProxy × ℕ} {h : HarvestToken}
    (hr : harvestToken us sum r h = .ok r') :
    Allocated r.1 r'.1 h.token
        (((r.1.harvestSrcChainIds.zip us).map fun e => ProRata.portion h.rewards sum e.2).sum) ∧
      r'.2 = ((r.1.harvestSrcChainIds.zip us).map Prod.snd).sum ∧
        (r.1.harvestSrcChainIds.zip us = [] ∨ sum ≠ 0) := by
  unfold harvestToken at hr
  obtain ⟨d, hd, hr⟩ := bind_eq_ok.1 hr
  obtain ⟨t, ht, hr⟩ := bind_eq_ok.1 hr
  obtain ⟨-, rfl⟩ := uadd_eq_ok.1 ht
  cases hr
  obtain ⟨hc, hh, ha, hsum⟩ := harvestChains_eq_ok hd
  dsimp only at hc hh ha
  rw [Nat.zero_add] at hh ha
  refine ⟨⟨rfl, ?_, fun k hk => update_of_ne hk _ _, ?_⟩, ha, hsum⟩
  · show update _ _ _ = _
    rw [hh]
  · show ∑ c, (update r.1.claimable h.token d.claimable) h.token c = _
    rw [update_self]
    exact hc

/-- What is claimable of a token adds up to its total. -/
def Consistent (s : AuraBalProxy) : Prop :=
  ∀ k, s.totalClaimable k = ∑ c, s.claimable k c

theorem Consistent.congr (h : s.Consistent) (ht : s'.totalClaimable = s.totalClaimable)
    (hc : s'.claimable = s.claimable) : s'.Consistent := by
  intro k
  rw [ht, hc]
  exact h k

theorem Allocated.consistent {token : Address} (h : s.Consistent) (ha : Allocated s s' token n) :
    s'.Consistent := by
  intro k
  by_cases hk : k = token
  · subst hk
    rw [ha.sum, ha.total, update_self, h k]
  · rw [ha.others k hk, ha.total, update_of_ne hk, h k]

/-- What a harvest adds for a token, over all chains. -/
def added (us : List ℕ) (sum : ℕ) (h : HarvestToken) : ℕ :=
  (us.map (ProRata.portion h.rewards sum)).sum

/-- The tokens of a harvest, one after the other. -/
structure AllocatedAll (s s' : AuraBalProxy) (us : List ℕ) (sum : ℕ) (hs : List HarvestToken) :
    Prop where
  rest : s' = { s with claimable := s'.claimable, totalClaimable := s'.totalClaimable }
  others : ∀ k, k ∉ hs.map HarvestToken.token →
    s'.totalClaimable k = s.totalClaimable k ∧ s'.claimable k = s.claimable k
  each : ∀ h ∈ hs, (hs.map HarvestToken.token).count h.token = 1 →
    s'.totalClaimable h.token = s.totalClaimable h.token + added us sum h ∧
      ∑ c, s'.claimable h.token c = ∑ c, s.claimable h.token c + added us sum h
  consistent : s.Consistent → s'.Consistent

theorem harvestTokens_eq_ok {us : List ℕ} {sum : ℕ} :
    ∀ {hs : List HarvestToken} {r r' : AuraBalProxy × ℕ},
      r.1.harvestSrcChainIds.length = us.length → hs.foldlM (harvestToken us sum) r = .ok r' →
      AllocatedAll r.1 r'.1 us sum hs ∧ (hs = [] ∨ r'.2 = us.sum ∧ (us = [] ∨ sum ≠ 0))
  | [], r, r', _, h => by
    cases h
    exact ⟨⟨rfl, fun _ _ => ⟨rfl, rfl⟩, by simp, id⟩, .inl rfl⟩
  | h :: hs, r, r', hlen, hr => by
    rw [List.foldlM_cons] at hr
    obtain ⟨r₁, h₁, hr⟩ := bind_eq_ok.1 hr
    obtain ⟨ha, hacc, hz⟩ := harvestToken_eq_ok h₁
    have hlen₁ : r₁.1.harvestSrcChainIds.length = us.length := by rw [ha.rest]; exact hlen
    obtain ⟨hall, hs'⟩ := harvestTokens_eq_ok hlen₁ hr
    have hsnd : (r.1.harvestSrcChainIds.zip us).map Prod.snd = us := List.map_snd_zip hlen.ge
    have hadded : ((r.1.harvestSrcChainIds.zip us).map
        fun e => ProRata.portion h.rewards sum e.2).sum = added us sum h := by
      unfold added
      conv_rhs => rw [← hsnd, List.map_map]
      rfl
    have hempty : us = [] ∨ sum ≠ 0 := hz.imp_left fun h0 => by rw [← hsnd, h0, List.map_nil]
    rw [hadded] at ha
    rw [hsnd] at hacc
    refine ⟨⟨?_, fun k hk => ?_, fun h' hh' hcount => ?_,
      fun hc => hall.consistent (ha.consistent hc)⟩, .inr ?_⟩
    · rw [hall.rest, ha.rest]
    · rw [List.map_cons, List.mem_cons, not_or] at hk
      obtain ⟨ht, hc⟩ := hall.others k hk.2
      exact ⟨by rw [ht, ha.total, update_of_ne hk.1], by rw [hc, ha.others k hk.1]⟩
    · rw [List.map_cons] at hcount
      rcases List.mem_cons.1 hh' with rfl | hh'
      · -- the later tokens are others
        rw [List.count_cons_self, Nat.add_eq_right, List.count_eq_zero] at hcount
        obtain ⟨ht, hc⟩ := hall.others h'.token hcount
        rw [ht, hc, ha.total, update_self, ha.sum]
        exact ⟨rfl, rfl⟩
      · obtain ⟨hne, hcount⟩ := count_eq_one_of_cons hcount (List.mem_map_of_mem hh')
        obtain ⟨ht, hc⟩ := hall.each h' hh' hcount
        rw [ht, hc, ha.total, update_of_ne hne, ha.others _ hne]
        exact ⟨rfl, rfl⟩
    · rcases hs' with rfl | hs'
      · cases hr
        exact ⟨hacc, hempty⟩
      · exact hs'

/-- What a harvest adds is at most the reward, and short of it by less than one for each chain. -/
theorem added_bounds {us : List ℕ} {sum : ℕ} (h : HarvestToken) (hsum : us.sum = sum)
    (h0 : us = [] ∨ sum ≠ 0) :
    added us sum h ≤ h.rewards ∧ (us ≠ [] → h.rewards < added us sum h + us.length) := by
  rcases h0 with rfl | h0
  · exact ⟨Nat.zero_le _, fun hne => absurd rfl hne⟩
  · have hpos := Nat.pos_of_ne_zero h0
    exact ⟨ProRata.sum_portion_le hpos hsum.le, fun _ => ProRata.lt_sum_portion_add hpos hsum⟩

/-- A harvest : `n` of auraBAL and `es` of the extra reward tokens. -/
structure HarvestDone (s s' : AuraBalProxy) (us : List ℕ) (sum n : ℕ) (es : List HarvestToken) :
    Prop where
  parity : s.harvestSrcChainIds.length = us.length
  sum_eq : us.sum = sum
  nonzero : us = [] ∨ sum ≠ 0
  rewards : s.underlyingRewards = .ok n
  tokens : es.map HarvestToken.token = s.extraRewards.map ExtraReward.rewardToken
  self : s'.self = s.self
  innerToken : s'.innerToken = s.innerToken
  shares : s'.vault.shares = s.vault.shares
  total : s'.vault.totalUnderlying = s.vault.totalUnderlying
  extraRewards : s'.extraRewards = s.extraRewards
  internalTotalSupply : s'.internalTotalSupply = s.internalTotalSupply
  credits : s'.credits = s.credits
  rounded : s'.rounded = 0
  balance : ∀ k, s.balance k ≤ s'.balance k
  funded : ∀ h ∈ es, h.rewards + s.totalClaimable h.token ≤ s'.balance h.token
  earned : ∀ h ∈ es, (es.map HarvestToken.token).count h.token = 1 →
    h.rewards + s.totalClaimable h.token = s'.balance h.token
  others : ∀ k, k ∉ s.innerToken :: es.map HarvestToken.token →
    s'.totalClaimable k = s.totalClaimable k
  each : ∀ h ∈ ⟨s.innerToken, n⟩ :: es,
    (s.innerToken :: es.map HarvestToken.token).count h.token = 1 →
    s'.totalClaimable h.token = s.totalClaimable h.token + added us sum h ∧
      ∑ c, s'.claimable h.token c = ∑ c, s.claimable h.token c + added us sum h
  consistent : s.Consistent → s'.Consistent

theorem harvest_eq_ok {sender : Address} {us : List ℕ} {sum : ℕ}
    (h : s.harvest sender us sum = .ok s') : ∃ n es, HarvestDone s s' us sum n es := by
  unfold harvest at h
  obtain ⟨-, h⟩ := require_bind_eq_ok.1 h
  obtain ⟨hlen, h⟩ := require_bind_eq_ok.1 h
  obtain ⟨⟨p, hs⟩, hp, h⟩ := bind_eq_ok.1 h
  obtain ⟨⟨s₁, acc⟩, hr, h⟩ := bind_eq_ok.1 h
  obtain ⟨hsum, h⟩ := require_bind_eq_ok.1 h
  cases h
  unfold _processHarvestableTokens at hp
  obtain ⟨n, hn, hp⟩ := bind_eq_ok.1 hp
  obtain ⟨hm, hb, -, es, hes, hmap, hle, heq⟩ := processExtraRewards_eq_ok hp
  obtain rfl : hs = ⟨s.innerToken, n⟩ :: es := hes
  have hlen' : p.harvestSrcChainIds.length = us.length := by
    rw [hm.harvestSrcChainIds]
    exact hlen
  obtain ⟨hall, hor⟩ := harvestTokens_eq_ok hlen' hr
  obtain ⟨hacc, h0⟩ := hor.resolve_left (by simp)
  have hrest := hall.rest
  dsimp only at hrest
  have hbal (k : Address) : s₁.balance k = p.balance k := by rw [hrest]; rfl
  refine ⟨n, es, hlen, hacc.symm.trans hsum, h0, hn, hmap, ?_, ?_, ?_, ?_, ?_, ?_, ?_, rfl,
    fun k => (hb k).trans_eq (hbal k).symm, fun h hh => (hle h hh).trans_eq (hbal _).symm,
    fun h hh hcount => (heq h hh hcount).trans (hbal _).symm, fun k hk => ?_,
    fun h hh hcount => ?_, fun hc => ?_⟩
  · rw [hrest]; exact hm.self
  · rw [hrest]; exact hm.innerToken
  · rw [hrest]; exact hm.shares
  · rw [hrest]; exact hm.total
  · rw [hrest]; exact hm.extraRewards
  · rw [hrest]; exact hm.internalTotalSupply
  · rw [hrest]; exact hm.credits
  · rw [← hm.totalClaimable]
    exact (hall.others k hk).1
  · rw [← hm.totalClaimable, ← hm.claimable]
    exact hall.each h hh hcount
  · exact (hall.consistent (hc.congr hm.totalClaimable hm.claimable)).congr rfl rfl

/-! ## Claimable rewards -/

/-- The processing of a claimable reward : it is bridged if the token is auraBAL, and moved
to the OFT of the token if not. -/
structure Processed (s s' : AuraBalProxy) (token : Address) (c : ChainId) (ms : List Message) :
    Prop where
  le : s.claimable token c ≤ s.totalClaimable token
  totalClaimable : s'.totalClaimable =
    update s.totalClaimable token (s.totalClaimable token - s.claimable token c)
  claimable : s'.claimable = update s.claimable token (update (s.claimable token) c 0)
  sent : token = s.innerToken ∧ carried ms = s.claimable token c ∧
      s' = { s with
        internalTotalSupply := s.internalTotalSupply + s.claimable token c
        totalClaimable := s'.totalClaimable
        claimable := s'.claimable } ∨
    token ≠ s.innerToken ∧ carried ms = 0 ∧ s.claimable token c ≤ s.balance token ∧
      ∃ tokens, s' = { s with
          tokens, totalClaimable := s'.totalClaimable, claimable := s'.claimable } ∧
        ∀ k, s'.balance k =
          if k = token then s.balance k - s.claimable token c else s.balance k

theorem sendReward_eq_ok {token oft : Address} (h : s.sendReward token oft n = .ok s')
    (hne : token ≠ s.innerToken) : n ≤ s.balance token ∧
      (∃ tokens, s' = { s with tokens }) ∧
        ∀ k, s'.balance k = if k = token then s.balance k - n else s.balance k := by
  unfold sendReward at h
  obtain ⟨m, -, h⟩ := bind_eq_ok.1 h
  obtain ⟨t₁, h₁, h⟩ := bind_eq_ok.1 h
  obtain ⟨hself, h⟩ := require_bind_eq_ok.1 h
  obtain ⟨t₂, h₂, h⟩ := bind_eq_ok.1 h
  cases h
  obtain ⟨hb₁, -⟩ := Erc20.approve_eq_ok h₁
  obtain ⟨-, hn, hb₂, -⟩ := Erc20.transferFrom_eq_ok h₂
  rw [hb₁] at hn hb₂
  refine ⟨hn, ⟨update s.tokens token t₂, if_neg hne⟩, fun k => ?_⟩
  rw [balance_setLedger]
  split_ifs with hk
  · rw [hk, hb₂, move_src _ _ (Ne.symm hself)]
    rfl
  · rfl

theorem processClaimable_eq_ok {p : ProxyOft AuraBalProxy} {token : Address} {c : ChainId}
    {r : AuraBalProxy × List Message} (h : processClaimable p token c = .ok r) :
    Processed p.heir r.1 token c r.2 := by
  unfold processClaimable at h
  obtain ⟨-, -, h⟩ := bind_eq_ok.1 h
  obtain ⟨-, h⟩ := require_bind_eq_ok.1 h
  obtain ⟨-, h⟩ := require_bind_eq_ok.1 h
  obtain ⟨-, h⟩ := require_bind_eq_ok.1 h
  obtain ⟨t, ht, h⟩ := bind_eq_ok.1 h
  obtain ⟨hle, rfl⟩ := usub_eq_ok.1 ht
  dsimp only at h
  split_ifs at h with htoken
  · obtain ⟨-, h⟩ := require_bind_eq_ok.1 h
    obtain ⟨i, hi, h⟩ := bind_eq_ok.1 h
    obtain ⟨-, rfl⟩ := uadd_eq_ok.1 hi
    obtain ⟨-, -, h⟩ := bind_eq_ok.1 h
    cases h
    exact ⟨hle, rfl, rfl, .inl ⟨htoken, by simp [carried, Payload.amount], rfl⟩⟩
  · obtain ⟨s₁, h₁, h⟩ := bind_eq_ok.1 h
    cases h
    obtain ⟨hn, ⟨tokens, hs⟩, hb⟩ := sendReward_eq_ok h₁ htoken
    refine ⟨hle, by rw [hs], by rw [hs], .inr ⟨htoken, rfl, hn, tokens, ?_, hb⟩⟩
    rw [hs]

/-! ## The functions that the heir adds -/

/-- A setting. -/
def Reconfigured (s s' : AuraBalProxy) : Prop :=
  ∃ rewardReceiver authorizedHarvesters ofts harvestSrcChainIds withdrawalPenalty,
    s' = { s with
      rewardReceiver, authorizedHarvesters, ofts, harvestSrcChainIds
      vault := { s.vault with withdrawalPenalty } }

/-- What a function that the heir adds can do. -/
inductive OwnDone (s s' : AuraBalProxy) (ms : List Message) : Prop
  | harvested (us : List ℕ) (sum n : ℕ) (es : List HarvestToken) :
      HarvestDone s s' us sum n es → ms = [] → OwnDone s s' ms
  | processed (token : Address) (c : ChainId) : Processed s s' token c ms → OwnDone s s' ms
  | reconfigured : Reconfigured s s' → ms = [] → OwnDone s s' ms

theorem byOwner_eq_ok {p : ProxyOft AuraBalProxy} {sender : Address}
    {r : AuraBalProxy × List Message} (h : byOwner p sender s = .ok r) : r.1 = s ∧ r.2 = [] := by
  unfold byOwner at h
  obtain ⟨-, -, h⟩ := bind_eq_ok.1 h
  cases h
  exact ⟨rfl, rfl⟩

theorem execOwn_eq_ok {p : ProxyOft AuraBalProxy} {sender : Address} {c : Own}
    {r : AuraBalProxy × List Message} (h : execOwn p sender c = .ok r) :
    OwnDone p.heir r.1 r.2 := by
  cases c with
  | harvest us sum =>
    obtain ⟨s', hs, h⟩ := bind_eq_ok.1 h
    cases h
    obtain ⟨n, es, hd⟩ := harvest_eq_ok hs
    exact .harvested us sum n es hd rfl
  | processClaimable token c => exact .processed token c (processClaimable_eq_ok h)
  | setRewardReceiver c a =>
    obtain ⟨hs, hm⟩ := byOwner_eq_ok h
    exact .reconfigured ⟨_, _, _, _, _, hs⟩ hm
  | updateAuthorizedHarvesters a b =>
    obtain ⟨hs, hm⟩ := byOwner_eq_ok h
    exact .reconfigured ⟨_, _, _, _, _, hs⟩ hm
  | setOFT token oft =>
    obtain ⟨hs, hm⟩ := byOwner_eq_ok h
    exact .reconfigured ⟨_, _, _, _, _, hs⟩ hm
  | setHarvestSrcChainIds cs =>
    obtain ⟨hs, hm⟩ := byOwner_eq_ok h
    exact .reconfigured ⟨_, _, _, _, _, hs⟩ hm
  | setWithdrawalPenalty n =>
    obtain ⟨-, -, h⟩ := bind_eq_ok.1 h
    obtain ⟨v, hv, h⟩ := bind_eq_ok.1 h
    cases h
    obtain ⟨-, hv⟩ := require_bind_eq_ok.1 hv
    obtain ⟨-, hv⟩ := require_bind_eq_ok.1 hv
    cases hv
    exact .reconfigured ⟨_, _, _, _, _, rfl⟩ rfl

/-! ## What never changes -/

/-- The addresses are fixed, and the credits are only added to. -/
structure Extends (s s' : AuraBalProxy) : Prop where
  self : s'.self = s.self
  innerToken : s'.innerToken = s.innerToken
  extraRewards : s'.extraRewards = s.extraRewards
  credits : ∀ e ∈ s.credits, e ∈ s'.credits

theorem OwnDone.extends {ms : List Message} (h : OwnDone s s' ms) : Extends s s' := by
  cases h with
  | harvested _ _ _ _ hd _ =>
    exact ⟨hd.self, hd.innerToken, hd.extraRewards, fun _ he => hd.credits ▸ he⟩
  | processed _ _ hd =>
    rcases hd.sent with ⟨-, -, hs⟩ | ⟨-, -, -, tokens, hs, -⟩
    · rw [hs]
      exact ⟨rfl, rfl, rfl, fun _ => id⟩
    · rw [hs]
      exact ⟨rfl, rfl, rfl, fun _ => id⟩
  | reconfigured hr _ =>
    obtain ⟨_, _, _, _, _, rfl⟩ := hr
    exact ⟨rfl, rfl, rfl, fun _ => id⟩

theorem extends_flow {n' : ℕ} (hf : Flow s s' n n') : Extends s s' := by
  cases hf with
  | same hs _ =>
    rw [hs]
    exact ⟨rfl, rfl, rfl, fun _ => id⟩
  | debited _ _ _ r hr hs _ =>
    have hd := debitFrom_eq_ok hr
    rw [hs]
    exact ⟨hd.self, hd.innerToken, hd.extraRewards, fun _ he => hd.credits ▸ he⟩
  | credited _ _ r hr hs _ =>
    have hd := creditTo_eq_ok hr
    rw [hs]
    exact ⟨hd.self, hd.innerToken, hd.extraRewards,
      fun _ he => hd.credits ▸ List.mem_cons_of_mem _ he⟩
  | locked _ _ _ hl => cases hl
  | own _ _ _ r hp hr hs _ =>
    rw [hs, ← hp]
    exact (execOwn_eq_ok hr).extends
  | elsewhere he _ =>
    cases he with
    | vault _ _ _ _ _ hs =>
      rw [hs]
      exact ⟨rfl, rfl, rfl, fun _ => id⟩
    | moved _ _ _ _ _ _ _ _ hs =>
      rw [hs]
      exact ⟨rfl, rfl, rfl, fun _ => id⟩

end AuraBalProxy

end Aura.Bridge
