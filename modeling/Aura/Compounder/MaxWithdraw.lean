import Aura.Compounder.Previews

/-!
# GenericUnionVault : maxWithdraw

`maxWithdraw` is documented as the most that can be withdrawn from the balance of an owner.
It rounds the penalty down and with it the net amount up, and the gross amount of that net
amount can be one asset more than the shares are worth. When it is, the withdrawal asks for
more shares than the owner has (`maxWithdraw_withdrawable_iff`). With a penalty of one
percent this is so for the assets that leave a remainder of 99 modulo 100.
-/

open Evm Function SharePool

namespace Aura.Compounder

namespace Vault

variable {v v' : Vault} {owner receiver : Address} {a m n x : ℕ}

/-- The strategy can pay what the vault counts. -/
structure Backed (v : Vault) : Prop where
  self : v.self ≠ 0
  strategy : v.strategy ≠ 0
  funded : v.totalUnderlying + v.gains ≤ v.underlying.balanceOf v.strategy

/-! ## What succeeds -/

theorem unstake_returns (hb : Backed v) (hle : n ≤ v.totalUnderlying) :
    ∃ v', v.unstake n = .ok v' := by
  obtain ⟨t, ht⟩ := v.underlying.exists_transfer hb.strategy hb.self
    ((hle.trans (Nat.le_add_right _ _)).trans hb.funded)
  unfold unstake
  rw [usub_of hle, ok_bind, ht, ok_bind]
  exact ⟨_, rfl⟩

theorem harvest_backed (hb : Backed v) : ∃ v', v.harvest = .ok v' ∧ Backed v' ∧
    v'.totalUnderlying = v.totalUnderlying + v.gains := by
  have hlt : v.totalUnderlying + v.gains < 2 ^ 256 :=
    (hb.funded.trans (Erc20.balanceOf_le _ _)).trans_lt v.underlying.totalSupply_lt
  unfold harvest
  rw [uadd_of hlt, ok_bind]
  exact ⟨_, rfl, ⟨hb.self, hb.strategy, hb.funded⟩, rfl⟩

/-- The end of a withdrawal succeeds, and the vault has what it pays. -/
theorem payOut_returns (hb : Backed v) (hp : v.withdrawalPenalty ≤ feeDenominator)
    (hfee : m * v.withdrawalPenalty < 2 ^ 256) (hle : m ≤ v.totalUnderlying) :
    ∃ r, v.payOut m = .ok r ∧ r.2 ≤ r.1.underlying.balanceOf r.1.self ∧ r.1.self ≠ 0 := by
  unfold payOut
  split_ifs with h0
  · obtain ⟨v₁, h₁, hb₁, -⟩ := harvest_backed hb
    obtain ⟨v₂, h₂⟩ := unstake_returns hb₁ le_rfl
    rw [h₁, ok_bind, h₂, ok_bind]
    exact ⟨_, rfl, le_rfl, (unstake_eq_ok h₂).2.2.self ▸ hb₁.self⟩
  · have hpen : m * v.withdrawalPenalty / feeDenominator ≤ m := Fee.fee_le hp m
    obtain ⟨v₁, h₁⟩ := unstake_returns hb ((Nat.sub_le m _).trans hle)
    have hself : v₁.self = v.self := (unstake_eq_ok h₁).2.2.self
    unfold _getWithdrawalPenalty
    rw [umul_of hfee, ok_bind, udiv_of (by decide), ok_bind, usub_of hpen, ok_bind, h₁, ok_bind]
    refine ⟨_, rfl, ?_, hself ▸ hb.self⟩
    dsimp only
    rw [unstake_underlying h₁, hself]
    exact le_move_dst _ _ _ _

/-- The owner can redeem any of its shares. -/
theorem redeem_returns (hb : Backed v) (hp : v.withdrawalPenalty ≤ feeDenominator)
    (howner : owner ≠ 0) (hreceiver : receiver ≠ 0) (hm : m ≤ v.shares.balanceOf owner)
    (hS : 0 < v.totalSupply) (hfits : m * v.totalUnderlying < 2 ^ 256)
    (hfee : floorShares v.totalUnderlying v.totalSupply m * v.withdrawalPenalty < 2 ^ 256) :
    ∃ r, v.redeem owner m receiver owner = .ok r := by
  obtain ⟨t, ht⟩ := v.shares.exists_burn howner hm
  have hle : floorShares v.totalUnderlying v.totalSupply m ≤ v.totalUnderlying := by
    refine Nat.div_le_of_le_mul (Nat.mul_le_mul_right _ ?_)
    exact hm.trans (Erc20.balanceOf_le _ _)
  obtain ⟨r, hr, hpays, hself⟩ := payOut_returns (v := { v with shares := t })
    ⟨hb.self, hb.strategy, hb.funded⟩ hp hfee hle
  obtain ⟨u, hu⟩ := r.1.underlying.exists_transfer hself hreceiver hpays
  have hspend : v.spendShares owner owner m = .ok v.shares := if_neg (not_not.2 rfl)
  have hwithdraw : v._withdraw owner m = .ok r := by
    unfold _withdraw
    rw [require_of hS, ok_bind, umul_of hfits, ok_bind, udiv_of hS.ne', ok_bind, ht, ok_bind]
    exact hr
  unfold redeem notToZeroAddress
  rw [require_of hreceiver, ok_bind, require_of howner, ok_bind, hspend, ok_bind, hwithdraw,
    ok_bind, hu, ok_bind]
  exact ⟨_, rfl⟩

end Vault

open Vault

variable {v : Vault} {owner receiver : Address} {a m x : ℕ}

/-- What can be withdrawn is what `maxWithdraw` says : the call for it, or for less, needs no
more shares than the owner has, and succeeds. -/
def MaxWithdrawable (v : Vault) (owner receiver : Address) : Prop :=
  ∃ x, v.maxWithdraw owner = .ok x ∧ ∀ a ≤ x,
    (∃ m, v.previewWithdraw a = .ok m ∧ m ≤ v.shares.balanceOf owner) ∧
      ∃ r, v.withdraw owner a receiver owner = .ok r

/-- The assets that the shares of an owner are worth. -/
def worth (v : Vault) (owner : Address) : ℕ :=
  floorShares v.totalUnderlying v.totalSupply (v.shares.balanceOf owner)

/-- What is withdrawable costs no more shares than the owner has as long as the gross amount
is no more than the shares are worth. -/
theorem ceilShares_le_balance_iff (hS : 0 < v.totalSupply) (hT : 0 < v.totalUnderlying) (g : ℕ) :
    ceilShares v.totalSupply v.totalUnderlying g ≤ v.shares.balanceOf owner ↔
      g ≤ worth v owner :=
  (ceilShares_le_iff hT).trans (Nat.le_div_iff_mul_le hS).symm

/-- What `maxWithdraw` says can be withdrawn exactly if the penalty on what the shares are
worth leaves a small remainder, and nothing overflows. -/
theorem maxWithdraw_withdrawable_iff {v₀ : Vault} (h₀ : v₀.totalSupply = 0)
    (hp₀ : v₀.withdrawalPenalty ≤ maxWithdrawalPenalty) (h : Steps v₀ v) (hb : Backed v)
    (howner : owner ≠ 0) (hreceiver : receiver ≠ 0) (hpos : 0 < v.shares.balanceOf owner) :
    MaxWithdrawable v owner receiver ↔
      worth v owner * v.withdrawalPenalty % feeDenominator <
          feeDenominator - v.withdrawalPenalty ∧
        v.shares.balanceOf owner * v.totalUnderlying < 2 ^ 256 ∧
        worth v owner * (feeDenominator - v.withdrawalPenalty) +
          worth v owner * v.withdrawalPenalty % feeDenominator < 2 ^ 256 := by
  have hp : v.withdrawalPenalty < feeDenominator := (h.penalty_le hp₀).trans_lt (by decide)
  have hS : 0 < v.totalSupply := hpos.trans_le (Erc20.balanceOf_le _ _)
  have hT : 0 < v.totalUnderlying := hS.trans_le (h.supply_le h₀)
  have hnet := Fee.mul_net hp.le (worth v owner)
  constructor
  · rintro ⟨x, hx, hall⟩
    obtain ⟨⟨m, hm, hle⟩, -⟩ := hall x le_rfl
    obtain ⟨hfits, -, rfl⟩ := (previewRedeem_iff hS hp.le).1 hx
    obtain ⟨hgross, -, -, -, rfl⟩ := (previewWithdraw_iff hS).1 hm
    have hworth := (ceilShares_le_balance_iff hS hT _).1 hle
    exact ⟨(Fee.gross_net_le_iff hp _).1 hworth, hfits, hnet ▸ hgross⟩
  · rintro ⟨hrem, hfits, hgross⟩
    have hfee : worth v owner * v.withdrawalPenalty < 2 ^ 256 := by
      refine lt_of_le_of_lt (Nat.mul_le_mul_left _ ?_)
        (lt_of_le_of_lt (Nat.le_add_right _ _) hgross)
      have hmax := h.penalty_le hp₀
      unfold maxWithdrawalPenalty at hmax
      unfold feeDenominator
      omega
    refine ⟨_, (previewRedeem_iff hS hp.le).2 ⟨hfits, hfee, rfl⟩, fun a ha => ?_⟩
    change a ≤ Fee.net feeDenominator v.withdrawalPenalty (worth v owner) at ha
    -- the gross amount of `a` is at most that of all that can be withdrawn
    have hg : Fee.gross feeDenominator v.withdrawalPenalty a ≤ worth v owner :=
      (Fee.gross_mono ha).trans ((Fee.gross_net_le_iff hp _).2 hrem)
    have hle := (ceilShares_le_balance_iff hS hT _).2 hg
    have hsupply : worth v owner * v.totalSupply ≤ v.shares.balanceOf owner * v.totalUnderlying :=
      floorShares_mul_le _ _ _
    have hm : v.previewWithdraw a = .ok (ceilShares v.totalSupply v.totalUnderlying
        (Fee.gross feeDenominator v.withdrawalPenalty a)) := by
      refine (previewWithdraw_iff hS).2 ⟨?_, hp, ?_, hT, rfl⟩
      · exact (Nat.mul_le_mul_left _ ha).trans_lt (hnet ▸ hgross)
      · exact (Nat.mul_le_mul_right _ hg).trans_lt (hsupply.trans_lt hfits)
    refine ⟨⟨_, hm, hle⟩, ?_⟩
    unfold withdraw
    rw [hm, ok_bind]
    refine redeem_returns hb hp.le howner hreceiver hle hS ?_ ?_
    · exact (Nat.mul_le_mul_right _ hle).trans_lt hfits
    · refine (Nat.mul_le_mul_right _ ?_).trans_lt hfee
      exact Nat.div_le_div_right (Nat.mul_le_mul_right _ hle)

/-- An owner of 100 shares worth 100 assets can withdraw the 99 that are left of them. -/
theorem maxWithdraw_withdrawable_run :
    MaxWithdrawable ((Vault.initial 0).after [(1, .deposit 100 1)]) 1 2 := by
  have h₀ : (Vault.initial 0).totalSupply = 0 := rfl
  have hb : Backed ((Vault.initial 0).after [(1, .deposit 100 1)]) :=
    ⟨by decide +kernel, by decide +kernel, by decide +kernel⟩
  exact (maxWithdraw_withdrawable_iff h₀ (by decide)
    (.after (by decide +kernel)) hb (by decide) (by decide) (by decide +kernel)).2
    ⟨by decide +kernel, by decide +kernel, by decide +kernel⟩

/-- 99 shares worth 99 assets : `maxWithdraw` says 99, for which 100 shares are needed. -/
theorem maxWithdraw_not_withdrawable : ¬∀ {v₀ v : Vault}, v₀.totalSupply = 0 →
    v₀.withdrawalPenalty ≤ maxWithdrawalPenalty → Steps v₀ v → Backed v →
      ∀ {owner receiver : Address}, owner ≠ 0 → receiver ≠ 0 → 0 < v.shares.balanceOf owner →
        MaxWithdrawable v owner receiver := by
  intro h
  let v := (Vault.initial 0).after [(1, .deposit 99 1)]
  have h₀ : (Vault.initial 0).totalSupply = 0 := rfl
  have hsteps : Steps (Vault.initial 0) v := .after (by decide +kernel)
  have hb : Backed v := ⟨by decide +kernel, by decide +kernel, by decide +kernel⟩
  have howner : (1 : Address) ≠ 0 := by decide
  have hreceiver : (2 : Address) ≠ 0 := by decide
  obtain ⟨x, hx, hall⟩ := h h₀ (by decide) hsteps hb howner hreceiver (by decide +kernel)
  have hmax : v.maxWithdraw 1 = .ok 99 := by decide +kernel
  rw [hmax] at hx
  cases hx
  obtain ⟨⟨m, hm, hle⟩, -⟩ := hall 99 le_rfl
  have hpreview : v.previewWithdraw 99 = .ok 100 := by decide +kernel
  rw [hpreview] at hm
  cases hm
  exact absurd hle (by decide +kernel)

end Aura.Compounder
