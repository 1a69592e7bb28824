import Aura.Bridge.AuraBalSpecs

/-!
# Bridge : the rewards that wait to be claimed

What `harvest` makes claimable for the chains adds up to `totalClaimable`, and of every
token of an extra reward the proxy holds at least as much. What a harvest takes as earned
is all allocated to the chains, but for less than one unit for each of them.
-/

open Evm Function Finset

namespace Aura.Bridge

open Compounder (Vault VaultCall)

namespace AuraBalProxy

/-- The pools pay different tokens, none of which is auraBAL. -/
def Separate (s : AuraBalProxy) : Prop :=
  (s.innerToken :: s.extraRewards.map ExtraReward.rewardToken).Nodup

instance (s : AuraBalProxy) : Decidable s.Separate :=
  inferInstanceAs (Decidable (List.Nodup _))

/-- What waits to be claimed is counted right, and is held where it is paid from the
balance. -/
structure Safe (s : AuraBalProxy) : Prop where
  self_ne : s.self ≠ 0
  consistent : s.Consistent
  held : s.Separate → ∀ e ∈ s.extraRewards,
    s.totalClaimable e.rewardToken ≤ s.balance e.rewardToken

variable {s s' : AuraBalProxy} {n n' : ℕ}

theorem Separate.congr (h : s'.Separate) (hi : s'.innerToken = s.innerToken)
    (he : s'.extraRewards = s.extraRewards) : s.Separate := by
  unfold Separate at h ⊢
  rwa [hi, he] at h

theorem Separate.ne (h : s.Separate) {e : ExtraReward} (he : e ∈ s.extraRewards) :
    e.rewardToken ≠ s.innerToken :=
  fun heq => (List.nodup_cons.1 h).1 (heq ▸ List.mem_map_of_mem he)

theorem balance_of_ne {k : Address} (h : k ≠ s.innerToken) :
    s.balance k = (s.tokens k).balanceOf s.self := by
  unfold balance ledger
  rw [if_neg h]

/-! ## The steps -/

/-- A step that leaves the counts and takes nothing. -/
theorem Safe.of_eq (h : s.Safe) (hself : s'.self = s.self) (hi : s'.innerToken = s.innerToken)
    (he : s'.extraRewards = s.extraRewards) (ht : s'.totalClaimable = s.totalClaimable)
    (hc : s'.claimable = s.claimable)
    (hb : ∀ k, (s.tokens k).balanceOf s.self ≤ (s'.tokens k).balanceOf s.self) : s'.Safe where
  self_ne := hself ▸ h.self_ne
  consistent := h.consistent.congr ht hc
  held hsep e hmem := by
    have hsep' := hsep.congr hi he
    have hmem' : e ∈ s.extraRewards := he ▸ hmem
    rw [ht, balance_of_ne (hsep.ne hmem), hself]
    have := h.held hsep' e hmem'
    rw [balance_of_ne (hsep'.ne hmem')] at this
    exact this.trans (hb _)

/-- A token to harvest of a pool. -/
theorem HarvestDone.exists_token {us : List ℕ} {sum : ℕ} {es : List HarvestToken}
    (hd : HarvestDone s s' us sum n es) (hsep : s.Separate) {e : ExtraReward}
    (he : e ∈ s.extraRewards) : ∃ h ∈ es, h.token = e.rewardToken ∧
      (es.map HarvestToken.token).count h.token = 1 ∧
        (s.innerToken :: es.map HarvestToken.token).count h.token = 1 := by
  have hmem : e.rewardToken ∈ es.map HarvestToken.token := by
    rw [hd.tokens]
    exact List.mem_map_of_mem he
  obtain ⟨h, hh, htoken⟩ := List.mem_map.1 hmem
  unfold Separate at hsep
  rw [← hd.tokens] at hsep
  refine ⟨h, hh, htoken, ?_, ?_⟩
  · exact List.count_eq_one_of_mem (List.nodup_cons.1 hsep).2 (htoken ▸ hmem)
  · exact List.count_eq_one_of_mem hsep (List.mem_cons_of_mem _ (htoken ▸ hmem))

theorem HarvestDone.safe {us : List ℕ} {sum : ℕ} {es : List HarvestToken}
    (hd : HarvestDone s s' us sum n es) (h : s.Safe) : s'.Safe where
  self_ne := hd.self ▸ h.self_ne
  consistent := hd.consistent h.consistent
  held hsep e hmem := by
    obtain ⟨t, ht, htoken, -, hcount⟩ :=
      hd.exists_token (hsep.congr hd.innerToken hd.extraRewards) (hd.extraRewards ▸ hmem)
    obtain ⟨htotal, -⟩ := hd.each t (List.mem_cons_of_mem _ ht) hcount
    have hadded := (added_bounds t hd.sum_eq hd.nonzero).1
    have hfunded := hd.funded t ht
    rw [← htoken]
    omega

theorem Processed.safe {token : Address} {c : ChainId} {ms : List Message}
    (hd : Processed s s' token c ms) (h : s.Safe) : s'.Safe := by
  have hconsistent : s'.Consistent := by
    intro k
    rw [hd.totalClaimable, hd.claimable]
    by_cases hk : k = token
    · subst hk
      have hle : s.claimable k c ≤ ∑ c, s.claimable k c := le_sum _ c
      have hsum := sum_update_add (s.claimable k) c 0
      rw [update_self, update_self, h.consistent k]
      omega
    · rw [update_of_ne hk, update_of_ne hk]
      exact h.consistent k
  rcases hd.sent with ⟨htoken, -, hs⟩ | ⟨htoken, -, hle, tokens, hs, hb⟩
  · refine ⟨by rw [hs]; exact h.self_ne, hconsistent, fun hsep e he => ?_⟩
    rw [hs] at hsep he
    have hne : e.rewardToken ≠ token := htoken ▸ Separate.ne hsep he
    rw [hd.totalClaimable, update_of_ne hne, hs]
    exact h.held hsep e he
  · refine ⟨by rw [hs]; exact h.self_ne, hconsistent, fun hsep e he => ?_⟩
    have hheld : s.totalClaimable e.rewardToken ≤ s.balance e.rewardToken := by
      rw [hs] at hsep he
      exact h.held hsep e he
    rw [hb, hd.totalClaimable]
    split_ifs with hk
    · rw [hk, update_self]
      rw [hk] at hheld
      exact Nat.sub_le_sub_right hheld _
    · rwa [update_of_ne hk]

theorem OwnDone.safe {ms : List Message} (hd : OwnDone s s' ms) (h : s.Safe) : s'.Safe := by
  cases hd with
  | harvested _ _ _ _ hd _ => exact hd.safe h
  | processed _ _ hd => exact hd.safe h
  | reconfigured hr _ =>
    obtain ⟨_, _, _, _, _, rfl⟩ := hr
    exact h.of_eq rfl rfl rfl rfl rfl fun _ => le_rfl

theorem safe_flow (h : s.Safe) (hf : Flow s s' n n') : s'.Safe := by
  cases hf with
  | same hs _ => exact hs ▸ h
  | debited _ _ _ r hr hs _ =>
    have hd := debitFrom_eq_ok hr
    rw [hs]
    exact h.of_eq hd.self hd.innerToken hd.extraRewards hd.totalClaimable hd.claimable
      fun k => by rw [hd.tokens]
  | credited _ _ r hr hs _ =>
    have hd := creditTo_eq_ok hr
    rw [hs]
    exact h.of_eq hd.self hd.innerToken hd.extraRewards hd.totalClaimable hd.claimable
      fun k => by rw [hd.tokens]
  | locked _ _ _ hl => cases hl
  | own _ _ _ r hp hr hs _ =>
    rw [hs]
    exact (execOwn_eq_ok hr).safe (hp ▸ h)
  | elsewhere he _ =>
    cases he with
    | vault _ _ _ _ _ hs =>
      rw [hs]
      exact h.of_eq rfl rfl rfl rfl rfl fun _ => le_rfl
    | moved _ _ _ _ _ _ _ hb hs =>
      rw [hs]
      exact h.of_eq rfl rfl rfl rfl rfl hb

theorem Deployed.safe (h : AuraBalProxy.Deployed s) : s.Safe where
  self_ne := h.self_ne
  consistent k := by
    rw [h.totalClaimable, sum_congr rfl fun c _ => h.claimable k c]
    simp
  held _ e _ := by
    rw [h.totalClaimable]
    exact Nat.zero_le _

/-! ## What a harvest does -/

theorem getReward_ne_underflow (s : AuraBalProxy) (e : ExtraReward) :
    s.getReward e ≠ .error .underflow := by
  unfold getReward
  exact bind_ne_underflow (Erc20.transfer_ne_underflow _ _ _ _) fun _ _ => ok_ne_underflow _

/-- No subtraction of the loop underflows. -/
theorem processExtraRewards_ne_underflow :
    ∀ {es : List ExtraReward} {r : AuraBalProxy × List HarvestToken},
      (∀ e ∈ es, r.1.totalClaimable e.rewardToken ≤ r.1.balance e.rewardToken) →
        es.foldlM processExtraReward r ≠ .error .underflow
  | [], _, _ => ok_ne_underflow _
  | e :: es, r, hle => by
    rw [List.foldlM_cons]
    refine bind_ne_underflow ?_ fun r₁ h₁ => ?_
    · unfold processExtraReward
      refine bind_ne_underflow (getReward_ne_underflow _ _) fun s₁ h₁ => ?_
      obtain ⟨hm, hb, -⟩ := getReward_eq_ok h₁
      have hcount : s₁.totalClaimable e.rewardToken ≤ s₁.balance e.rewardToken := by
        rw [hm.totalClaimable]
        exact (hle e List.mem_cons_self).trans (hb _)
      rw [show AuraMath.sub _ _ = .ok _ from usub_of hcount, ok_bind]
      exact ok_ne_underflow _
    · obtain ⟨hm, hb, -⟩ := processExtraReward_eq_ok h₁
      refine processExtraRewards_ne_underflow fun e' he' => ?_
      rw [hm.totalClaimable]
      exact (hle e' (List.mem_cons_of_mem _ he')).trans (hb _)

/-- With what `earned` of a token a harvest `s → s'` does : all of it is allocated to the
`chains`, but for less than one for each of them. -/
structure Allots (s s' : AuraBalProxy) (token : Address) (earned chains : ℕ) : Prop where
  le : ∑ c, s'.claimable token c ≤ ∑ c, s.claimable token c + earned
  lt : 0 < chains → ∑ c, s.claimable token c + earned < ∑ c, s'.claimable token c + chains

theorem HarvestDone.allots {us : List ℕ} {sum : ℕ} {es : List HarvestToken}
    (hd : HarvestDone s s' us sum n es) {h : HarvestToken} (hh : h ∈ ⟨s.innerToken, n⟩ :: es)
    (hcount : (s.innerToken :: es.map HarvestToken.token).count h.token = 1) :
    Allots s s' h.token h.rewards s.harvestSrcChainIds.length := by
  obtain ⟨-, hsum⟩ := hd.each h hh hcount
  obtain ⟨hle, hlt⟩ := added_bounds h hd.sum_eq hd.nonzero
  rw [hd.parity]
  refine ⟨by omega, fun hpos => ?_⟩
  have := hlt (List.ne_nil_of_length_pos hpos)
  omega

/-- A harvest : its array sums to the sum it is given, what the shares are worth beyond what
is counted is allotted, and of every extra reward what the proxy holds beyond it. -/
theorem harvest_allots {sender : Address} {us : List ℕ} {sum : ℕ} (hsep : s.Separate)
    (h : s.harvest sender us sum = .ok s') :
    us.sum = sum ∧
      (∃ n, s.underlyingRewards = .ok n ∧
        Allots s s' s.innerToken n s.harvestSrcChainIds.length) ∧
      ∀ e ∈ s.extraRewards, Allots s s' e.rewardToken
        (s'.balance e.rewardToken - s.totalClaimable e.rewardToken)
          s.harvestSrcChainIds.length := by
  obtain ⟨n, es, hd⟩ := harvest_eq_ok h
  refine ⟨hd.sum_eq, ⟨n, hd.rewards, hd.allots (h := ⟨s.innerToken, n⟩) List.mem_cons_self ?_⟩,
    fun e he => ?_⟩
  · rw [List.count_cons_self, hd.tokens, List.count_eq_zero.2 (List.nodup_cons.1 hsep).1]
  · obtain ⟨t, ht, htoken, hone, hcount⟩ := hd.exists_token hsep he
    have hearned := hd.earned t ht hone
    rw [← htoken, ← hearned, Nat.add_sub_cancel]
    exact hd.allots (List.mem_cons_of_mem _ ht) hcount

/-- A token other than auraBAL is moved to its OFT. -/
theorem sendReward_moves {token oft : Address} (h : s.sendReward token oft n = .ok s')
    (hne : token ≠ s.innerToken) :
    (s'.tokens token).balanceOf = move (s.tokens token).balanceOf s.self oft n := by
  obtain ⟨m, -, h⟩ := bind_eq_ok.1 h
  obtain ⟨t₁, h₁, h⟩ := bind_eq_ok.1 h
  obtain ⟨-, h⟩ := require_bind_eq_ok.1 h
  obtain ⟨t₂, h₂, h⟩ := bind_eq_ok.1 h
  cases h
  have hledger : s.ledger token = s.tokens token := if_neg hne
  obtain ⟨hb₁, -⟩ := Erc20.approve_eq_ok h₁
  obtain ⟨-, -, hb₂, -⟩ := Erc20.transferFrom_eq_ok h₂
  unfold setLedger
  rw [if_neg hne]
  dsimp only
  rw [update_self, hb₂, hb₁, hledger]

/-- What the proxy holds can be pulled by the OFT of the token. -/
theorem exists_sendReward {token oft : Address} (hself : s.self ≠ 0) (ho : oft ≠ 0)
    (hos : oft ≠ s.self) (hn : n ≤ s.balance token)
    (ha : (s.ledger token).allowance s.self oft + n < 2 ^ 256) :
    ∃ s', s.sendReward token oft n = .ok s' := by
  have hn' : n ≤ (s.ledger token).balanceOf s.self := hn
  simp [sendReward, Erc20.approve, Erc20.transferFrom, Erc20.transfer, uadd_of ha, hself, ho, hos,
    hn']

/-- Nothing but the balance of the proxy can keep a claimable reward from being sent. -/
structure Sendable (p : ProxyOft AuraBalProxy) (token : Address) (c : ChainId) : Prop where
  whenNotPaused : p.guard.whenNotPaused = .ok ()
  receiver : p.heir.rewardReceiver c ≠ 0
  reward : 0 < p.heir.claimable token c
  oft : p.heir.ofts token ≠ 0
  oft_ne : p.heir.ofts token ≠ p.heir.self
  allowance : (p.heir.ledger token).allowance p.heir.self (p.heir.ofts token) +
    p.heir.claimable token c < 2 ^ 256

theorem Consistent.claimable_le (h : s.Consistent) (k : Address) (c : ChainId) :
    s.claimable k c ≤ s.totalClaimable k := by
  rw [h k]
  exact le_sum (s.claimable k) c

/-- What is claimable is sent : it is settled, and the OFT of the token gets it. -/
theorem Safe.exists_processClaimable {p : ProxyOft AuraBalProxy} (h : p.heir.Safe)
    (hsep : p.heir.Separate) {e : ExtraReward} (he : e ∈ p.heir.extraRewards) {c : ChainId}
    (hs : Sendable p e.rewardToken c) : ∃ r, processClaimable p e.rewardToken c = .ok r ∧
      Processed p.heir r.1 e.rewardToken c r.2 ∧
      (r.1.tokens e.rewardToken).balanceOf = move (p.heir.tokens e.rewardToken).balanceOf
        p.heir.self (p.heir.ofts e.rewardToken) (p.heir.claimable e.rewardToken c) := by
  have hle := h.consistent.claimable_le e.rewardToken c
  obtain ⟨s', hs'⟩ := exists_sendReward
    (s := { p.heir with
      claimable := update p.heir.claimable e.rewardToken
        (update (p.heir.claimable e.rewardToken) c 0)
      totalClaimable := update p.heir.totalClaimable e.rewardToken
        (p.heir.totalClaimable e.rewardToken - p.heir.claimable e.rewardToken c) })
    h.self_ne hs.oft hs.oft_ne (hle.trans (h.held hsep e he)) hs.allowance
  have hx : processClaimable p e.rewardToken c = .ok (s', []) := by
    unfold processClaimable
    rw [hs.whenNotPaused, ok_bind]
    dsimp only
    rw [require_of hs.receiver, ok_bind, require_of hs.reward, ok_bind, require_of hs.oft, ok_bind,
      usub_of hle, ok_bind, if_neg (hsep.ne he), hs', ok_bind]
  have hmoved := sendReward_moves hs' (hsep.ne he)
  exact ⟨_, hx, processClaimable_eq_ok hx, hmoved⟩

end AuraBalProxy

open AuraBalProxy

theorem Reachable.safe {b : Network AuraBalProxy} (h : Reachable b) : b.proxy.heir.Safe :=
  h.induct (P := fun s _ => s.Safe) (fun _ => AuraBalProxy.Deployed.safe)
    fun _ _ _ _ => AuraBalProxy.safe_flow

/-- What is claimable on the chains adds up to its total, and processing it settles exactly what
was claimable. If the pools pay different tokens, none of them auraBAL : of their tokens the proxy
holds what is claimable and can send it to the OFT of the token ; no subtraction in the loop over
the pools underflows ; and a harvest, whose array must sum to the sum it is given, allots what was
earned. -/
theorem harvest_bookkeeping {b : Network AuraBalProxy} (h : Reachable b) :
    (∀ k, b.proxy.heir.totalClaimable k = ∑ c, b.proxy.heir.claimable k c) ∧
    (∀ token c r, processClaimable b.proxy token c = .ok r →
      Processed b.proxy.heir r.1 token c r.2) ∧
    (b.proxy.heir.Separate →
      (∀ e ∈ b.proxy.heir.extraRewards,
        b.proxy.heir.totalClaimable e.rewardToken ≤ b.proxy.heir.balance e.rewardToken ∧
          ∀ c, Sendable b.proxy e.rewardToken c →
            ∃ r, processClaimable b.proxy e.rewardToken c = .ok r ∧
              Processed b.proxy.heir r.1 e.rewardToken c r.2 ∧
              (r.1.tokens e.rewardToken).balanceOf =
                move (b.proxy.heir.tokens e.rewardToken).balanceOf b.proxy.heir.self
                  (b.proxy.heir.ofts e.rewardToken) (b.proxy.heir.claimable e.rewardToken c)) ∧
      (∀ n, b.proxy.heir.underlyingRewards = .ok n →
        b.proxy.heir._processHarvestableTokens ≠ .error .underflow) ∧
      ∀ sender us sum s', b.proxy.heir.harvest sender us sum = .ok s' →
        us.sum = sum ∧
        (∃ n, b.proxy.heir.underlyingRewards = .ok n ∧
          Allots b.proxy.heir s' b.proxy.heir.innerToken n
            b.proxy.heir.harvestSrcChainIds.length) ∧
        ∀ e ∈ b.proxy.heir.extraRewards, Allots b.proxy.heir s' e.rewardToken
          (s'.balance e.rewardToken - b.proxy.heir.totalClaimable e.rewardToken)
            b.proxy.heir.harvestSrcChainIds.length) := by
  have hsafe := h.safe
  refine ⟨hsafe.consistent, fun token c r => processClaimable_eq_ok, fun hsep =>
    ⟨fun e he => ?_, fun n hn => ?_, fun sender us sum s' hx => harvest_allots hsep hx⟩⟩
  · exact ⟨hsafe.held hsep e he, fun c hs => hsafe.exists_processClaimable hsep he hs⟩
  · unfold _processHarvestableTokens
    rw [hn, ok_bind]
    exact processExtraRewards_ne_underflow fun e he => hsafe.held hsep e he

/-- The pool at 600 pays 50, which a harvest divides between the chains 2 and 3. The 30 of the
chain 2 go to the OFT of the token at 800. -/
theorem harvest_bookkeeping_run : ∃ (b : Network AuraBalProxy) (r : AuraBalProxy × List Message),
    b.proxy.heir.totalClaimable 700 = 50 ∧
      (∀ k, b.proxy.heir.totalClaimable k = ∑ c, b.proxy.heir.claimable k c) ∧
      processClaimable b.proxy 700 2 = .ok r ∧ Processed b.proxy.heir r.1 700 2 r.2 ∧
      (r.1.tokens 700).balanceOf 800 = 30 := by
  let start : Network AuraBalProxy :=
    .initial 1 { AuraBalProxy.initial 0 with earned := fun _ => 50 } 1000
  let log : List (Address × Call AuraBalProxy.Own) :=
    [(1, .sendFrom 1 2 (encodePacked 2) 100), (401, .own (.setHarvestSrcChainIds [2, 3])),
      (401, .own (.updateAuthorizedHarvesters 5 true)), (5, .own (.harvest [60, 40] 100)),
      (401, .own (.setRewardReceiver 2 9)), (401, .own (.setOFT 700 800))]
  have hdeployed : AuraBalProxy.Deployed { AuraBalProxy.initial 0 with earned := fun _ => 50 } :=
    { AuraBalProxy.initial_deployed 0 with }
  have hrun : Reachable (start.after log) :=
    .after (.deployed (Network.initial_deployed hdeployed)) (by decide +kernel)
  have hpool : (⟨600, 700⟩ : ExtraReward) ∈ (start.after log).proxy.heir.extraRewards := by
    decide +kernel
  have hsendable : Sendable (start.after log).proxy 700 2 :=
    ⟨by decide +kernel, by decide +kernel, by decide +kernel, by decide +kernel,
      by decide +kernel, by decide +kernel⟩
  obtain ⟨htotal, -, hsep⟩ := harvest_bookkeeping hrun
  obtain ⟨r, hr, hdone, hmoved⟩ := ((hsep (by decide +kernel)).1 _ hpool).2 2 hsendable
  refine ⟨_, r, by decide +kernel, htotal, hr, hdone, ?_⟩
  rw [hmoved]
  decide +kernel

end Aura.Bridge
