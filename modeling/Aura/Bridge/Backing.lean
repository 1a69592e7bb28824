import Aura.Bridge.AuraBalSpecs

/-!
# Bridge : what backs the auraBAL that is bridged

`AuraBalProxyOFT` counts auraBAL exactly and holds it as shares of a vault that rounds
against it. The shares are worth what is counted but for `rounded` : for every deposit and
every withdrawal of the proxy since its last harvest, at most the price of one share, and
nothing when the amount was a whole number of shares (`underlying_backed`).
-/

open Evm Function SharePool

namespace Aura.Bridge

open Compounder (Vault VaultCall)

namespace AuraBalProxy

/-- The auraBAL that is bridged or waits to be. -/
def counted (s : AuraBalProxy) : ℕ :=
  s.internalTotalSupply + s.totalClaimable s.innerToken

/-- The shares of the proxy are worth what it counts but for what was rounded. -/
def Backed (s : AuraBalProxy) : Prop :=
  Worth s.vault.totalSupply s.vault.totalUnderlying (s.vault.shares.balanceOf s.self) s.counted
    s.rounded

/-- Nobody may move shares of the proxy. -/
def NoAllowance (s : AuraBalProxy) : Prop :=
  ∀ a, s.vault.shares.allowance s.self a = 0

/-- auraBAL is no extra reward, and nothing was credited to the proxy itself. -/
def Proper (s : AuraBalProxy) : Prop :=
  s.innerToken ∉ s.extraRewards.map ExtraReward.rewardToken ∧ ∀ e ∈ s.credits, e.1 ≠ s.self

variable {s s' : AuraBalProxy} {n n' : ℕ}

theorem balanceOf_self_le (s : AuraBalProxy) :
    s.vault.shares.balanceOf s.self ≤ s.vault.totalSupply :=
  s.vault.shares.balanceOf_le s.self

/-! ## The operations of the proxy -/

theorem Backed.debited (h : s.Backed) (hd : Debited s s' n) : s'.Backed := by
  obtain ⟨m, hv⟩ := hd.vault
  have hbal : s'.vault.shares.balanceOf s.self = s.vault.shares.balanceOf s.self + m := by
    rw [hv.balance, update_self]
  have hX : s'.counted = s.counted + n := by
    unfold counted
    rw [hd.internalTotalSupply, hd.totalClaimable, hd.innerToken]
    omega
  have hround := hd.rounded
  unfold Backed at h ⊢
  rw [hd.self, hbal, hX, hv.supply, hv.total, hround]
  unfold rounding
  rcases hv.shares with ⟨h0, rfl⟩ | ⟨hS, hT, rfl⟩
  · rw [if_pos h0, h0, Nat.zero_add, Nat.add_zero]
    rw [h0] at h
    exact h.deposit_first m
  · rw [if_neg hS.ne']
    exact h.deposit hS hT n

theorem Backed.credited {dst : Address} (h : s.Backed) (hd : Credited s s' dst n)
    (hdst : dst ≠ s.self) : s'.Backed := by
  obtain ⟨m, x, hv, hT, hm⟩ := hd.vault
  have hi := hd.internalTotalSupply
  rw [if_neg hdst] at hi
  have hbal : s'.vault.shares.balanceOf s.self = s.vault.shares.balanceOf s.self - m := by
    rw [hv.balance, update_self]
  have hX : s'.counted = s.counted - n := by
    unfold counted
    rw [hd.totalClaimable, hd.innerToken]
    omega
  have hle := s.balanceOf_self_le
  have hsup := hv.supply
  have hms := hv.le
  unfold Backed at h ⊢
  rw [hd.self, hbal, hX, hd.rounded]
  unfold rounding
  rw [if_neg hv.pos.ne']
  rcases hv.paid with ⟨h0, -⟩ | ⟨hpos, ht, hx⟩
  · -- the last shares : the proxy held them all
    have hall : s.vault.totalSupply = m := by omega
    exact h.leave hv.pos (hall.trans hm) (by omega) _ _ _
  · rw [show s'.vault.totalSupply = s.vault.totalSupply - m by omega,
      show s'.vault.totalUnderlying = s.vault.totalUnderlying - x by omega]
    refine h.withdraw hm hms (by omega) ?_ hx
    unfold counted
    omega

/-- A harvest makes everything that is not yet counted claimable, and no more. -/
theorem HarvestDone.backed {us : List ℕ} {sum : ℕ} {es : List HarvestToken}
    (hd : HarvestDone s s' us sum n es)
    (hextra : s.innerToken ∉ s.extraRewards.map ExtraReward.rewardToken) : s'.Backed := by
  obtain ⟨hS, hu⟩ := underlyingRewards_eq_ok hd.rewards
  have hcount : (s.innerToken :: es.map HarvestToken.token).count s.innerToken = 1 := by
    rw [List.count_cons_self, hd.tokens, List.count_eq_zero.2 hextra]
  obtain ⟨ht, -⟩ := hd.each ⟨s.innerToken, n⟩ List.mem_cons_self hcount
  have hadded := (added_bounds ⟨s.innerToken, n⟩ hd.sum_eq hd.nonzero).1
  dsimp only at ht hadded
  unfold Backed Vault.totalSupply
  rw [hd.self, hd.shares, hd.total, hd.rounded]
  refine .of_le_value hS ?_
  unfold counted
  rw [hd.internalTotalSupply, hd.innerToken, ht]
  unfold Vault.totalSupply at hu
  omega

theorem Processed.counted {token : Address} {c : ChainId} {ms : List Message}
    (hd : Processed s s' token c ms) : s'.counted = s.counted := by
  have hle := hd.le
  have ht := hd.totalClaimable
  unfold AuraBalProxy.counted
  rcases hd.sent with ⟨hk, -, hs⟩ | ⟨hk, -, -, tokens, hs, -⟩
  · rw [ht, hs, hk, update_self]
    rw [hk] at hle
    dsimp only
    omega
  · rw [ht, hs]
    dsimp only
    rw [update_of_ne (Ne.symm hk)]

theorem OwnDone.backed {ms : List Message} (h : OwnDone s s' ms) (hb : s.Backed)
    (hextra : s.innerToken ∉ s.extraRewards.map ExtraReward.rewardToken) : s'.Backed := by
  cases h with
  | harvested us sum n es hd _ => exact hd.backed hextra
  | processed token c hd =>
    have hX := hd.counted
    unfold Backed
    rw [hX]
    rcases hd.sent with ⟨-, -, hs⟩ | ⟨-, -, -, tokens, hs, -⟩
    · rw [hs]
      exact hb
    · rw [hs]
      exact hb
  | reconfigured hr _ =>
    obtain ⟨_, _, _, _, _, rfl⟩ := hr
    exact hb

/-! ## The operations of others -/

/-- A holder that approves no one keeps what others could take only with its allowance. -/
theorem eq_zero_of_allowed {sender : Address} {n : ℕ} (ha : s.NoAllowance) (hs : sender ≠ s.self)
    (h : sender = s.self ∨ n ≤ s.vault.shares.allowance s.self sender) : n = 0 := by
  rcases h with he | hn
  · exact absurd he hs
  · rw [ha] at hn
    exact Nat.eq_zero_of_le_zero hn

theorem Backed.deposited {v : Vault} {receiver : Address} {a m : ℕ} (h : s.Backed)
    (hd : s.vault.Deposited v receiver a m) : { s with vault := v }.Backed := by
  have hle := s.balanceOf_self_le
  show Worth v.totalSupply v.totalUnderlying (v.shares.balanceOf s.self) s.counted s.rounded
  unfold Backed at h
  have hbal : s.vault.shares.balanceOf s.self ≤ v.shares.balanceOf s.self := by
    rw [hd.balance]
    by_cases hr : s.self = receiver
    · rw [hr, update_self]
      exact Nat.le_add_right _ _
    · rw [update_of_ne hr]
  refine Worth.mono ?_ hbal le_rfl
  rw [hd.supply, hd.total]
  rcases hd.shares with ⟨h0, -⟩ | ⟨hS, -, rfl⟩
  · rw [h0] at h
    exact h.first _ _
  · exact h.others_deposit hS a

/-- Others redeem nothing of the proxy, but they can leave it as the only holder. -/
theorem Backed.redeemed {sender owner : Address} {v : Vault} {m x : ℕ} (h : s.Backed)
    (ha : s.NoAllowance) (hs : sender ≠ s.self) (hr : s.vault.Redeemed v sender owner m x) :
    { s with vault := v }.Backed := by
  have hle := s.balanceOf_self_le
  show Worth v.totalSupply v.totalUnderlying (v.shares.balanceOf s.self) s.counted s.rounded
  unfold Backed at h
  have hsup := hr.supply
  have hpos := hr.pos
  by_cases ho : s.self = owner
  · subst ho
    have hm := eq_zero_of_allowed ha hs hr.allowed
    have hbal : v.shares.balanceOf s.self = s.vault.shares.balanceOf s.self := by
      rw [hr.balance, update_self, hm, Nat.sub_zero]
    rcases hr.paid with ⟨h0, -⟩ | ⟨-, ht, hx⟩
    · omega
    · rw [hbal, show v.totalSupply = s.vault.totalSupply - m by omega,
        show v.totalUnderlying = s.vault.totalUnderlying - x by omega]
      exact h.others_withdraw (by omega) hx
  · have hbal : v.shares.balanceOf s.self = s.vault.shares.balanceOf s.self := by
      rw [hr.balance, update_of_ne ho]
    rcases hr.paid with ⟨h0, -⟩ | ⟨hpos, ht, hx⟩
    · -- the last shares were those of the owner
      have hadd : s.vault.shares.balanceOf s.self + s.vault.shares.balanceOf owner ≤
        s.vault.totalSupply := s.vault.shares.balanceOf_add_le ho
      have hown := hr.le
      rw [show s.vault.shares.balanceOf s.self = 0 by omega] at h
      exact h.others_leave hr.pos _ _ _
    · rw [hbal, show v.totalSupply = s.vault.totalSupply - m by omega,
        show v.totalUnderlying = s.vault.totalUnderlying - x by omega]
      exact h.others_withdraw (by omega) hx

/-- Others move no shares away from the proxy. -/
theorem le_move_self {sender src dst : Address} {n : ℕ} (ha : s.NoAllowance)
    (hs : sender ≠ s.self) (hn : sender = src ∨ n ≤ s.vault.shares.allowance src sender) :
    s.vault.shares.balanceOf s.self ≤ move s.vault.shares.balanceOf src dst n s.self := by
  by_cases hsrc : s.self = src
  · subst hsrc
    have hle := le_move_add s.vault.shares.balanceOf s.self dst n s.self
    rwa [eq_zero_of_allowed ha hs hn] at hle ⊢
  · by_cases hdst : s.self = dst
    · rw [hdst, move_dst _ _ fun he => hsrc (hdst.trans he.symm)]
      exact Nat.le_add_right _ _
    · rw [move_of_ne _ _ hsrc hdst]

/-- Others move the shares of the proxy only towards it. -/
theorem Backed.others {sender : Address} {v : Vault} (h : s.Backed) (ha : s.NoAllowance)
    (hs : sender ≠ s.self) (hf : s.vault.Flow v sender) : { s with vault := v }.Backed := by
  cases hf with
  | deposited receiver a m hd => exact h.deposited hd
  | redeemed owner m x hr => exact h.redeemed ha hs hr
  | moved src dst k hallow hsup ht hb =>
    show Worth v.totalSupply v.totalUnderlying (v.shares.balanceOf s.self) s.counted s.rounded
    rw [hsup, ht, hb]
    exact Worth.mono h (le_move_self ha hs hallow) le_rfl
  | raised hsup ht hb =>
    show Worth v.totalSupply v.totalUnderlying (v.shares.balanceOf s.self) s.counted s.rounded
    rw [hsup, hb]
    exact Worth.gain h ht

theorem Elsewhere.backed (h : AuraBalProxy.Elsewhere s s') (hb : s.Backed) (ha : s.NoAllowance) :
    s'.Backed := by
  cases h with
  | vault sender c v hne hx hs =>
    rw [hs]
    exact hb.others ha hne (Compounder.Vault.exec_flow hx)
  | moved _ v _ _ _ hv _ _ hs =>
    rw [hs]
    show Worth v.shares.totalSupply v.totalUnderlying (v.shares.balanceOf s.self) s.counted
      s.rounded
    rw [hv.shares]
    exact Worth.gain hb hv.total

/-! ## Every run -/

theorem Elsewhere.noAllowance (h : AuraBalProxy.Elsewhere s s') (ha : s.NoAllowance) :
    s'.NoAllowance := by
  intro a
  cases h with
  | vault sender c v hne hx hs =>
    rw [hs]
    exact Nat.le_zero.1 ((Compounder.Vault.exec_allowance hx hne.symm a).trans (ha a).le)
  | moved _ v _ _ _ hv _ _ hs =>
    rw [hs]
    show v.shares.allowance s.self a = 0
    rw [hv.shares]
    exact ha a

theorem OwnDone.noAllowance {ms : List Message} (h : OwnDone s s' ms) (ha : s.NoAllowance) :
    s'.NoAllowance := by
  intro a
  cases h with
  | harvested _ _ _ _ hd _ =>
    rw [hd.self, hd.shares]
    exact ha a
  | processed _ _ hd =>
    rcases hd.sent with ⟨-, -, hs⟩ | ⟨-, -, -, tokens, hs, -⟩
    · rw [hs]
      exact ha a
    · rw [hs]
      exact ha a
  | reconfigured hr _ =>
    obtain ⟨_, _, _, _, _, rfl⟩ := hr
    exact ha a

theorem Proper.of_extends (h : s'.Proper) (he : Extends s s') : s.Proper := by
  refine ⟨?_, fun e hm => ?_⟩
  · rw [← he.innerToken, ← he.extraRewards]
    exact h.1
  · rw [← he.self]
    exact h.2 e (he.credits e hm)

theorem noAllowance_flow (ha : s.NoAllowance) (hf : Flow s s' n n') : s'.NoAllowance := by
  cases hf with
  | same hs _ => exact hs ▸ ha
  | debited _ _ _ r hr hs _ =>
    have hd := debitFrom_eq_ok hr
    obtain ⟨m, hv⟩ := hd.vault
    intro a
    rw [hs, hd.self, hv.allowance]
    exact ha a
  | credited _ _ r hr hs _ =>
    have hd := creditTo_eq_ok hr
    obtain ⟨m, x, hv, -, -⟩ := hd.vault
    intro a
    rw [hs, hd.self]
    exact Nat.le_zero.1 ((hv.allowance s.self a).trans (ha a).le)
  | locked _ _ _ hl => cases hl
  | own _ _ _ r hp hr hs _ =>
    rw [hs]
    rw [← hp] at ha
    exact (execOwn_eq_ok hr).noAllowance ha
  | elsewhere he _ => exact he.noAllowance ha

theorem backed_flow (ha : s.NoAllowance) (h : s.Backed) (hp : s'.Proper) (hf : Flow s s' n n') :
    s'.Backed := by
  have hps := hp.of_extends (extends_flow hf)
  cases hf with
  | same hs _ => exact hs ▸ h
  | debited _ _ _ r hr hs _ => exact hs ▸ h.debited (debitFrom_eq_ok hr)
  | credited dst k r hr hs _ =>
    have hd := creditTo_eq_ok hr
    have hdst : dst ≠ s.self := by
      rw [← hd.self, ← hs]
      exact hp.2 (dst, k) (by rw [hs, hd.credits]; exact List.mem_cons_self)
    exact hs ▸ h.credited hd hdst
  | locked _ _ _ hl => cases hl
  | own _ _ _ r hown hr hs _ =>
    have hd := execOwn_eq_ok hr
    rw [hown] at hd
    exact hs ▸ hd.backed h hps.1
  | elsewhere he _ => exact he.backed h ha

theorem Deployed.backed (h : AuraBalProxy.Deployed s) : s.Backed := by
  have hX : s.counted = 0 := by
    unfold counted
    rw [h.internalTotalSupply, h.totalClaimable]
  unfold Backed
  rw [hX]
  exact ⟨by rw [Nat.zero_mul]; exact Nat.zero_le _, fun _ => Nat.zero_le _⟩

end AuraBalProxy

theorem Reachable.backed {b : Network AuraBalProxy} (h : Reachable b)
    (hp : b.proxy.heir.Proper) : b.proxy.heir.Backed :=
  (h.induct (P := fun s _ => s.NoAllowance ∧ (s.Proper → s.Backed))
    (fun s (hd : AuraBalProxy.Deployed s) => ⟨hd.allowance, fun _ => hd.backed⟩)
    fun _ _ _ _ hP hf => ⟨AuraBalProxy.noAllowance_flow hP.1 hf, fun hp =>
      AuraBalProxy.backed_flow hP.1
        (hP.2 (hp.of_extends (AuraBalProxy.extends_flow hf))) hp hf⟩).2 hp

/-- The shares of the proxy are worth what it counts, but for what its deposits and
withdrawals since the last harvest can have rounded away. If that is nothing, the rewards
of the next harvest do not underflow. -/
theorem underlying_backed {b : Network AuraBalProxy} (h : Reachable b)
    (hextra : b.proxy.heir.innerToken ∉
      b.proxy.heir.extraRewards.map ExtraReward.rewardToken)
    (hcredits : ∀ e ∈ b.proxy.heir.credits, e.1 ≠ b.proxy.heir.self) :
    (∀ u, b.proxy.heir.vault.balanceOfUnderlying b.proxy.heir.self = .ok u →
      b.proxy.heir.internalTotalSupply + b.proxy.heir.totalClaimable b.proxy.heir.innerToken ≤
        u + b.proxy.heir.rounded) ∧
      (b.proxy.heir.rounded = 0 → b.proxy.heir.underlyingRewards ≠ .error .underflow) := by
  have hb := h.backed ⟨hextra, hcredits⟩
  have hle (u : ℕ) (hu : b.proxy.heir.vault.balanceOfUnderlying b.proxy.heir.self = .ok u) :
      b.proxy.heir.counted ≤ u + b.proxy.heir.rounded := by
    unfold Vault.balanceOfUnderlying at hu
    obtain ⟨hS, hu⟩ := require_bind_eq_ok.1 hu
    obtain ⟨y, hy, hu⟩ := bind_eq_ok.1 hu
    obtain ⟨-, rfl⟩ := umul_eq_ok.1 hy
    obtain ⟨-, rfl⟩ := udiv_eq_ok.1 hu
    exact Worth.le_value hb hS
  refine ⟨hle, fun h0 => ?_⟩
  unfold AuraBalProxy.underlyingRewards
  refine bind_ne_underflow ?_ fun u hu => ?_
  · unfold Vault.balanceOfUnderlying
    refine bind_ne_underflow (require_ne_underflow _) fun _ _ => ?_
    exact bind_ne_underflow (umul_ne_underflow _ _ _) fun _ _ => udiv_ne_underflow _ _
  · have hcount := hle u hu
    unfold AuraBalProxy.counted at hcount
    rw [usub_of (by omega), ok_bind, usub_of (by omega)]
    exact ok_ne_underflow _

/-- A vault with 3 shares for 4 assets, in which the proxy stakes 2. It gets 1 share. -/
theorem shortRun_reachable : ∃ b : Network AuraBalProxy, Reachable b ∧
    b.proxy.heir.innerToken ∉ b.proxy.heir.extraRewards.map ExtraReward.rewardToken ∧
    (∀ e ∈ b.proxy.heir.credits, e.1 ≠ b.proxy.heir.self) ∧
    b.proxy.heir.vault.shares.balanceOf b.proxy.heir.self = 1 ∧
    b.proxy.heir.vault.balanceOfUnderlying b.proxy.heir.self = .ok 1 ∧
    b.proxy.heir.internalTotalSupply = 2 := by
  let vault : Vault := (Vault.initial 1).after [(1, .deposit 3 1), (2, .harvest)]
  let start : Network AuraBalProxy := .initial 1 { AuraBalProxy.initial 0 with vault } 1000
  let log : List (Address × Call AuraBalProxy.Own) := [(1, .sendFrom 1 2 (encodePacked 2) 2)]
  have hallow (a : Address) : vault.shares.allowance 300 a = 0 :=
    Nat.le_zero.1 (Compounder.Vault.after_allowance (v := .initial 1) (by decide) a)
  have hdeployed : AuraBalProxy.Deployed { AuraBalProxy.initial 0 with vault } :=
    { AuraBalProxy.initial_deployed 0 with allowance := hallow }
  exact ⟨start.after log, .after (.deployed (Network.initial_deployed hdeployed))
    (by decide +kernel), by decide +kernel, by decide +kernel, by decide +kernel,
    by decide +kernel, by decide +kernel⟩

/-- The account 1 bridges 100 to the account 2, who sends 60 back, and nothing is rounded. In
the other vault the share is worth less than what is counted, and something was rounded. -/
theorem underlying_backed_run :
    (∃ b : Network AuraBalProxy, b.proxy.heir.internalTotalSupply = 40 ∧
      b.proxy.heir.underlyingRewards ≠ .error .underflow) ∧
    ∃ b : Network AuraBalProxy, b.proxy.heir.internalTotalSupply = 2 ∧
      b.proxy.heir.vault.balanceOfUnderlying b.proxy.heir.self = .ok 1 ∧
      2 ≤ 1 + b.proxy.heir.rounded := by
  constructor
  · let start : Network AuraBalProxy := .initial 1 (.initial 0) 1000
    let log : List (Address × Call AuraBalProxy.Own) :=
      [(1, .sendFrom 1 2 (encodePacked 2) 100),
        (9, .lzReceive ⟨1, 2, .send (encodePacked 2) 100⟩),
        (2, .oftSendFrom 2 2 1 (encodePacked 1) 60),
        (9, .lzReceive ⟨2, 1, .send (encodePacked 1) 60⟩)]
    have hrun : Reachable (start.after log) :=
      .after (.deployed (Network.initial_deployed (AuraBalProxy.initial_deployed 0)))
        (by decide +kernel)
    have hcount : (start.after log).proxy.heir.internalTotalSupply = 40 := by decide +kernel
    have hrounded : (start.after log).proxy.heir.rounded = 0 := by decide +kernel
    exact ⟨_, hcount, (underlying_backed hrun (by decide +kernel) (by decide +kernel)).2 hrounded⟩
  · obtain ⟨b, hrun, hextra, hcredits, -, hu, hcount⟩ := shortRun_reachable
    have hle := (underlying_backed hrun hextra hcredits).1 1 hu
    exact ⟨b, hcount, hu, by omega⟩

/-- The proxy stakes 2 in a vault with 3 shares for 4 assets, and gets 1 share, worth 1. -/
theorem underlying_short : ¬∀ {b : Network AuraBalProxy}, Reachable b →
    b.proxy.heir.innerToken ∉ b.proxy.heir.extraRewards.map ExtraReward.rewardToken →
      (∀ e ∈ b.proxy.heir.credits, e.1 ≠ b.proxy.heir.self) →
        0 < b.proxy.heir.vault.shares.balanceOf b.proxy.heir.self →
          ∀ u, b.proxy.heir.vault.balanceOfUnderlying b.proxy.heir.self = .ok u →
            b.proxy.heir.internalTotalSupply +
              b.proxy.heir.totalClaimable b.proxy.heir.innerToken ≤ u := by
  intro h
  obtain ⟨b, hrun, hextra, hcredits, hheld, hu, hcount⟩ := shortRun_reachable
  have := h hrun hextra hcredits (by omega) 1 hu
  omega

end Aura.Bridge
