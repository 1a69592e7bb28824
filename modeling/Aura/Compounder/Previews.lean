import Aura.Bridge.AuraBalProxy
import Aura.Fee

/-!
# GenericUnionVault : previews

The previews of the vault are what its functions then do (`previews_honoured`). A withdrawal
divides four times on its way from assets to shares and back; it pays what was asked for
because the gross amount is rounded down to what leaves exactly the net one (`Fee.net_gross`)
and the shares are rounded up. A mint divides twice and hits its shares because a share is
always worth one asset or more.

`AuraBalProxyOFT` lifts the penalty for its own withdrawals, and what it checks afterwards
holds for every penalty.
-/

open Evm Function SharePool

namespace Aura.Compounder

namespace Vault

variable {v v' : Vault} {sender owner receiver : Address} {a b c m n x y : ℕ}

/-! ## Conversions -/

theorem mulDiv_down : mulDiv a b c false = .ok m ↔
    a * b < 2 ^ 256 ∧ 0 < c ∧ m = floorShares b c a := by
  unfold mulDiv floorShares
  simp only [bind_eq_ok, umul_eq_ok, udiv_eq_ok, Bool.false_eq_true, false_and, if_false,
    Except.ok.injEq]
  constructor
  · rintro ⟨_, ⟨hlt, rfl⟩, _, ⟨hc, rfl⟩, rfl⟩
    exact ⟨hlt, Nat.pos_of_ne_zero hc, rfl⟩
  · rintro ⟨hlt, hc, rfl⟩
    exact ⟨_, ⟨hlt, rfl⟩, _, ⟨hc.ne', rfl⟩, rfl⟩

/-- The increment of a quotient with a remainder never overflows. -/
theorem mulDiv_up : mulDiv a b c true = .ok m ↔
    a * b < 2 ^ 256 ∧ 0 < c ∧ m = ceilShares b c a := by
  have hceil : ∀ hc : 0 < c, ceilShares b c a ≤ a * b := fun hc =>
    (ceilShares_le_iff hc).2 (Nat.le_mul_of_pos_right _ hc)
  unfold mulDiv
  simp only [bind_eq_ok, umul_eq_ok, udiv_eq_ok, true_and]
  constructor
  · rintro ⟨_, ⟨hlt, rfl⟩, _, ⟨hc, rfl⟩, h⟩
    refine ⟨hlt, Nat.pos_of_ne_zero hc, ?_⟩
    unfold ceilShares
    split_ifs at h with hrem
    · rw [if_neg hrem.ne']
      exact (uadd_eq_ok.1 h).2
    · cases h
      rw [if_pos (Nat.eq_zero_of_not_pos hrem)]
  · rintro ⟨hlt, hc, rfl⟩
    refine ⟨_, ⟨hlt, rfl⟩, _, ⟨hc.ne', rfl⟩, ?_⟩
    have hle := hceil hc
    unfold ceilShares at hle ⊢
    split_ifs with hrem hzero hzero
    · omega
    · exact uadd_of (by rw [if_neg hzero] at hle; omega)
    · rfl
    · omega

/-- The shares for some assets while there are shares. -/
theorem convertToShares_up (hS : 0 < v.totalSupply) : v._convertToShares a true = .ok m ↔
    a * v.totalSupply < 2 ^ 256 ∧ 0 < v.totalUnderlying ∧
      m = ceilShares v.totalSupply v.totalUnderlying a := by
  unfold _convertToShares
  rw [if_neg hS.ne', mulDiv_up]

/-- The shares that a withdrawal burns. -/
theorem previewWithdraw_iff (hS : 0 < v.totalSupply) : v.previewWithdraw a = .ok m ↔
    feeDenominator * a < 2 ^ 256 ∧ v.withdrawalPenalty < feeDenominator ∧
      Fee.gross feeDenominator v.withdrawalPenalty a * v.totalSupply < 2 ^ 256 ∧
        0 < v.totalUnderlying ∧ m = ceilShares v.totalSupply v.totalUnderlying
          (Fee.gross feeDenominator v.withdrawalPenalty a) := by
  unfold previewWithdraw Fee.gross
  simp only [bind_eq_ok, umul_eq_ok, usub_eq_ok, udiv_eq_ok]
  constructor
  · rintro ⟨_, ⟨hlt, rfl⟩, _, ⟨hp, rfl⟩, _, ⟨hne, rfl⟩, h⟩
    exact ⟨hlt, by omega, (convertToShares_up hS).1 h⟩
  · rintro ⟨hlt, hp, h⟩
    exact ⟨_, ⟨hlt, rfl⟩, _, ⟨hp.le, rfl⟩, _, ⟨by omega, rfl⟩, (convertToShares_up hS).2 h⟩

/-- What shares are worth after the penalty, while there are shares. -/
theorem previewRedeem_iff (hS : 0 < v.totalSupply) (hp : v.withdrawalPenalty ≤ feeDenominator) :
    v.previewRedeem m = .ok x ↔ m * v.totalUnderlying < 2 ^ 256 ∧
      floorShares v.totalUnderlying v.totalSupply m * v.withdrawalPenalty < 2 ^ 256 ∧
        x = Fee.net feeDenominator v.withdrawalPenalty
          (floorShares v.totalUnderlying v.totalSupply m) := by
  unfold previewRedeem _convertToAssets _getWithdrawalPenalty Fee.net
  simp only [if_neg hS.ne', bind_eq_ok, mulDiv_down, umul_eq_ok, usub_eq_ok, udiv_eq_ok]
  constructor
  · rintro ⟨_, ⟨hlt, -, rfl⟩, _, ⟨_, ⟨hfee, rfl⟩, -, rfl⟩, -, rfl⟩
    exact ⟨hlt, hfee, rfl⟩
  · rintro ⟨hlt, hfee, rfl⟩
    exact ⟨_, ⟨hlt, hS, rfl⟩, _, ⟨_, ⟨hfee, rfl⟩, by decide, rfl⟩, Fee.fee_le hp _, rfl⟩

/-! ## What is moved -/

theorem unstake_underlying (h : v.unstake n = .ok v') :
    v'.underlying.balanceOf = move v.underlying.balanceOf v.strategy v.self n := by
  unfold unstake at h
  obtain ⟨t, -, h⟩ := bind_eq_ok.1 h
  obtain ⟨u, hu, h⟩ := bind_eq_ok.1 h
  cases h
  obtain ⟨-, -, -, hbal, -, -⟩ := Erc20.transfer_eq_ok hu
  exact hbal

/-- A deposit moves the assets from the sender to the strategy. -/
theorem deposit_underlying (h : v.deposit sender a receiver = .ok (v', m)) :
    a ≤ v.underlying.balanceOf sender ∧
      v'.underlying.balanceOf = move v.underlying.balanceOf sender v.strategy a := by
  unfold deposit at h
  obtain ⟨-, -, h⟩ := bind_eq_ok.1 h
  obtain ⟨-, h⟩ := require_bind_eq_ok.1 h
  obtain ⟨k, -, h⟩ := bind_eq_ok.1 h
  obtain ⟨u, hu, h⟩ := bind_eq_ok.1 h
  obtain ⟨v₁, h₁, h⟩ := bind_eq_ok.1 h
  obtain ⟨t, -, h⟩ := bind_eq_ok.1 h
  obtain rfl := stake_eq_ok h₁
  cases h
  obtain ⟨-, hle, hbal, -⟩ := Erc20.transferFrom_eq_ok hu
  exact ⟨hle, hbal⟩

/-- What is unstaked for `m` shares, and paid out. The last to leave gets all that the vault
then has. -/
structure Unstaked (v v' : Vault) (m n x : ℕ) : Prop where
  fits : m * v.totalUnderlying < 2 ^ 256
  paid : v'.totalSupply = 0 ∧ n = v.totalUnderlying + v.gains ∧
      x = move v.underlying.balanceOf v.strategy v.self n v.self ∨
    0 < v'.totalSupply ∧ n = x ∧
      floorShares v.totalUnderlying v.totalSupply m * v.withdrawalPenalty < 2 ^ 256 ∧
      x = Fee.net feeDenominator v.withdrawalPenalty
        (floorShares v.totalUnderlying v.totalSupply m)

theorem payOut_unstaked (h : v.payOut y = .ok (v', x)) : v'.shares = v.shares ∧ ∃ n,
    v'.underlying.balanceOf = move v.underlying.balanceOf v.strategy v.self n ∧
      (v.totalSupply = 0 ∧ n = v.totalUnderlying + v.gains ∧
          x = move v.underlying.balanceOf v.strategy v.self n v.self ∨
        0 < v.totalSupply ∧ n = x ∧ y * v.withdrawalPenalty < 2 ^ 256 ∧
          x = Fee.net feeDenominator v.withdrawalPenalty y) := by
  refine ⟨(payOut_eq_ok h).1, ?_⟩
  unfold payOut at h
  split_ifs at h with h0
  · obtain ⟨v₁, h₁, h⟩ := bind_eq_ok.1 h
    obtain ⟨v₂, h₂, h⟩ := bind_eq_ok.1 h
    cases h
    obtain rfl := harvest_eq_ok h₁
    have hbal := unstake_underlying h₂
    have hself : v'.self = v.self := (unstake_eq_ok h₂).2.2.self
    refine ⟨_, hbal, .inl ⟨h0, rfl, ?_⟩⟩
    rw [hbal, hself]
  · obtain ⟨p, hp, h⟩ := bind_eq_ok.1 h
    obtain ⟨w, hw, h⟩ := bind_eq_ok.1 h
    obtain ⟨-, rfl⟩ := usub_eq_ok.1 hw
    obtain ⟨v₁, h₁, h⟩ := bind_eq_ok.1 h
    cases h
    obtain ⟨z, hz, hp⟩ := bind_eq_ok.1 hp
    obtain ⟨hfee, rfl⟩ := umul_eq_ok.1 hz
    obtain ⟨-, rfl⟩ := udiv_eq_ok.1 hp
    exact ⟨_, unstake_underlying h₁, .inr ⟨Nat.pos_of_ne_zero h0, rfl, hfee, rfl⟩⟩

/-- A redemption moves what it unstakes to the vault, and what it pays to the receiver. -/
theorem redeem_unstaked (h : v.redeem sender m receiver owner = .ok (v', x)) :
    ∃ n, v'.underlying.balanceOf =
        move (move v.underlying.balanceOf v.strategy v.self n) v.self receiver x ∧
      Unstaked v v' m n x := by
  unfold redeem at h
  obtain ⟨-, -, h⟩ := bind_eq_ok.1 h
  obtain ⟨-, -, h⟩ := bind_eq_ok.1 h
  obtain ⟨t, ht, h⟩ := bind_eq_ok.1 h
  obtain ⟨r, hr, h⟩ := bind_eq_ok.1 h
  obtain ⟨u, hu, h⟩ := bind_eq_ok.1 h
  cases h
  have hsup : t.totalSupply = v.totalSupply := (spendShares_eq_ok ht).2.1
  unfold _withdraw at hr
  obtain ⟨-, hr⟩ := require_bind_eq_ok.1 hr
  obtain ⟨z, hz, hr⟩ := bind_eq_ok.1 hr
  obtain ⟨hfits, rfl⟩ := umul_eq_ok.1 hz
  obtain ⟨y, hy, hr⟩ := bind_eq_ok.1 hr
  obtain ⟨-, rfl⟩ := udiv_eq_ok.1 hy
  obtain ⟨s, -, hr⟩ := bind_eq_ok.1 hr
  obtain ⟨hshares, n, hn, hpaid⟩ := payOut_unstaked hr
  have hself : r.1.self = v.self := (payOut_eq_ok hr).2.1.self
  have hS : r.1.totalSupply = s.totalSupply := congrArg Erc20.totalSupply hshares
  obtain ⟨-, -, -, hbal, -, -⟩ := Erc20.transfer_eq_ok hu
  refine ⟨n, ?_, hfits, ?_⟩
  · rw [← hn, ← hself]
    exact hbal
  · rcases hpaid with ⟨h0, hpaid⟩ | ⟨hpos, hnx, hfee, hx⟩
    · exact .inl ⟨hS.trans h0, hpaid⟩
    · refine .inr ⟨hS.symm ▸ hpos, hnx, ?_⟩
      unfold floorShares
      rw [← hsup]
      exact ⟨hfee, hx⟩

/-! ## The penalty -/

/-- A call changes the penalty only to one that the setter admits. -/
theorem exec_penalty {e : VaultCall} (h : v.exec sender e = .ok v') :
    v'.withdrawalPenalty = v.withdrawalPenalty ∨ v'.withdrawalPenalty ≤ maxWithdrawalPenalty := by
  cases e with
  | deposit _ _ =>
    obtain ⟨_, h⟩ := state_eq_ok h
    exact .inl (deposit_eq_ok h).config.withdrawalPenalty
  | mint _ _ =>
    obtain ⟨_, h⟩ := state_eq_ok h
    obtain ⟨_, -, h⟩ := bind_eq_ok.1 h
    exact .inl (deposit_eq_ok h).config.withdrawalPenalty
  | redeem _ _ _ =>
    obtain ⟨_, h⟩ := state_eq_ok h
    exact .inl (redeem_eq_ok h).config.withdrawalPenalty
  | withdraw _ _ _ =>
    obtain ⟨_, h⟩ := state_eq_ok h
    obtain ⟨_, -, h⟩ := bind_eq_ok.1 h
    exact .inl (redeem_eq_ok h).config.withdrawalPenalty
  | harvest =>
    obtain rfl := harvest_eq_ok h
    exact .inl rfl
  | setWithdrawalPenalty p =>
    obtain ⟨-, h⟩ := require_bind_eq_ok.1 h
    obtain ⟨hp, h⟩ := require_bind_eq_ok.1 h
    cases h
    exact .inr hp
  | transfer _ _ =>
    obtain ⟨_, -, h⟩ := bind_eq_ok.1 h
    cases h
    exact .inl rfl
  | approve _ _ =>
    obtain ⟨_, -, h⟩ := bind_eq_ok.1 h
    cases h
    exact .inl rfl
  | transferFrom _ _ _ =>
    obtain ⟨_, -, h⟩ := bind_eq_ok.1 h
    cases h
    exact .inl rfl

theorem Steps.penalty_le {v₀ : Vault} (hp : v₀.withdrawalPenalty ≤ maxWithdrawalPenalty)
    (h : Steps v₀ v) : v.withdrawalPenalty ≤ maxWithdrawalPenalty := by
  induction h with
  | refl => exact hp
  | tail _ hstep ih =>
    cases hstep with
    | call _ _ hx => exact (exec_penalty hx).elim (fun he => he ▸ ih) id
    | elsewhere he => exact he.config.withdrawalPenalty ▸ ih

end Vault

open Vault

variable {v v' : Vault} {sender owner receiver : Address} {a m n x y : ℕ}

/-! ## The previews -/

/-- While shares remain a redemption pays what was announced, and the last to leave gets
that much at least. -/
theorem redeem_previewed (hS : 0 < v.totalSupply) (hp : v.withdrawalPenalty ≤ feeDenominator)
    (h : v.redeem sender m receiver owner = .ok (v', x)) :
    (0 < v'.totalSupply → v.previewRedeem m = .ok x) ∧
      ∀ y, v.previewRedeem m = .ok y → y ≤ x := by
  obtain ⟨n, -, hu⟩ := redeem_unstaked h
  rcases hu.paid with ⟨h0, rfl, rfl⟩ | ⟨-, -, hfee, hx⟩
  · refine ⟨fun hpos => absurd h0 hpos.ne', fun y hy => ?_⟩
    obtain ⟨-, -, rfl⟩ := (previewRedeem_iff hS hp).1 hy
    have hm : m = v.totalSupply := by
      have hsup := (redeem_eq_ok h).supply
      omega
    have hall : floorShares v.totalUnderlying v.totalSupply m = v.totalUnderlying := by
      unfold floorShares
      rw [hm, Nat.mul_div_cancel_left _ hS]
    calc Fee.net feeDenominator v.withdrawalPenalty
          (floorShares v.totalUnderlying v.totalSupply m)
        ≤ v.totalUnderlying := (Fee.net_le _ _ _).trans hall.le
      _ ≤ v.totalUnderlying + v.gains := Nat.le_add_right _ _
      _ ≤ _ := le_move_dst _ _ _ _
  · have hprev := (previewRedeem_iff hS hp).2 ⟨hu.fits, hfee, hx⟩
    refine ⟨fun _ => hprev, fun y hy => ?_⟩
    rw [hprev] at hy
    cases hy
    exact le_rfl

/-- A withdrawal pays what was asked for, and while shares remain less than the price of a
share more. -/
theorem withdraw_previewed (hp : v.withdrawalPenalty < feeDenominator)
    (h : v.withdraw sender a receiver owner = .ok (v', x)) :
    ∃ m, v.previewWithdraw a = .ok m ∧ Redeemed v v' sender owner m x ∧ a ≤ x ∧
      (0 < v'.totalSupply → x * v.totalSupply < a * v.totalSupply + v.totalUnderlying) := by
  unfold withdraw at h
  obtain ⟨m, hm, h⟩ := bind_eq_ok.1 h
  have hr := redeem_eq_ok h
  have hS := hr.pos
  obtain ⟨n, -, hu⟩ := redeem_unstaked h
  obtain ⟨-, -, -, hT, hceil⟩ := (previewWithdraw_iff hS).1 hm
  set g := Fee.gross feeDenominator v.withdrawalPenalty a with hg
  have hnet : Fee.net feeDenominator v.withdrawalPenalty g = a := Fee.net_gross hp a
  have hlow : g * v.totalSupply ≤ m * v.totalUnderlying :=
    hceil ▸ le_ceilShares_mul v.totalSupply g hT
  have hhigh : m * v.totalUnderlying < g * v.totalSupply + v.totalUnderlying :=
    hceil ▸ ceilShares_mul_lt v.totalSupply g hT
  have hgross : g ≤ floorShares v.totalUnderlying v.totalSupply m :=
    (Nat.le_div_iff_mul_le hS).2 hlow
  refine ⟨m, hm, hr, ?_, fun hS' => ?_⟩
  · rcases hu.paid with ⟨h0, rfl, rfl⟩ | ⟨-, -, -, rfl⟩
    · have hm' : m = v.totalSupply := by
        have hsup := hr.supply
        omega
      rw [hm', mul_comm] at hlow
      calc a ≤ g := hnet ▸ Fee.net_le _ _ _
        _ ≤ v.totalUnderlying := Nat.le_of_mul_le_mul_left hlow hS
        _ ≤ v.totalUnderlying + v.gains := Nat.le_add_right _ _
        _ ≤ _ := le_move_dst _ _ _ _
    · exact hnet.symm.le.trans (Fee.net_mono hp.le (by decide) hgross)
  · rcases hu.paid with ⟨h0, -⟩ | ⟨-, -, -, rfl⟩
    · exact absurd h0 hS'.ne'
    · have hle := Fee.net_add_le (D := feeDenominator) (p := v.withdrawalPenalty) hgross
      rw [hnet] at hle
      have hmul := Nat.mul_le_mul_right v.totalSupply hle
      have hfloor : floorShares v.totalUnderlying v.totalSupply m * v.totalSupply ≤
        m * v.totalUnderlying := floorShares_mul_le _ _ _
      rw [Nat.add_mul, Nat.add_mul] at hmul
      omega

/-- A deposit issues the announced shares. -/
theorem deposit_previewed (h : v.deposit sender a receiver = .ok (v', m)) :
    v.previewDeposit a = .ok m := by
  unfold deposit at h
  obtain ⟨-, -, h⟩ := bind_eq_ok.1 h
  obtain ⟨-, h⟩ := require_bind_eq_ok.1 h
  obtain ⟨k, hk, h⟩ := bind_eq_ok.1 h
  obtain ⟨u, -, h⟩ := bind_eq_ok.1 h
  obtain ⟨v₁, -, h⟩ := bind_eq_ok.1 h
  obtain ⟨t, -, h⟩ := bind_eq_ok.1 h
  cases h
  unfold sharesFor at hk
  unfold previewDeposit _convertToShares
  split_ifs at hk ⊢ with h0
  · exact hk
  · obtain ⟨z, hz, hk⟩ := bind_eq_ok.1 hk
    obtain ⟨hfits, rfl⟩ := umul_eq_ok.1 hz
    obtain ⟨hne, rfl⟩ := udiv_eq_ok.1 hk
    exact mulDiv_down.2 ⟨hfits, Nat.pos_of_ne_zero hne, rfl⟩

/-- A mint issues the shares that were asked for. -/
theorem mint_previewed (hle : v.totalSupply ≤ v.totalUnderlying)
    (h : v.mint sender n receiver = .ok (v', m)) :
    m = n ∧ ∃ a, v.previewMint n = .ok a ∧ v.deposit sender a receiver = .ok (v', m) := by
  obtain ⟨a, ha, h⟩ := bind_eq_ok.1 h
  refine ⟨?_, a, ha, h⟩
  unfold previewMint _convertToAssets at ha
  rcases (deposit_eq_ok h).shares with ⟨h0, rfl⟩ | ⟨hS, -, hm⟩
  · rw [if_pos h0] at ha
    cases ha
    rfl
  · rw [if_neg hS.ne'] at ha
    obtain ⟨-, -, rfl⟩ := mulDiv_up.1 ha
    rw [hm, floorShares_ceilShares hS hle]

/-- The withdrawal of the proxy succeeds whenever that of the vault does. -/
theorem proxy_withdraw_returns {s : Bridge.AuraBalProxy} {v₁ : Vault}
    (hp : s.vault.withdrawalPenalty ≤ maxWithdrawalPenalty)
    (h₁ : s.vault.setWithdrawalPenalty s.self 0 = .ok v₁)
    (h : v₁.withdraw s.self a s.self s.self = .ok (v', x)) :
    ∃ s', s._withdraw a = .ok s' := by
  have hset := h₁
  obtain ⟨howner, h₁⟩ := require_bind_eq_ok.1 h₁
  obtain ⟨-, h₁⟩ := require_bind_eq_ok.1 h₁
  cases h₁
  obtain ⟨m, -, hr, hle, -⟩ := withdraw_previewed (show 0 < feeDenominator by decide) h
  have howner' : v'.owner = s.self := hr.config.owner.trans howner
  unfold Bridge.AuraBalProxy._withdraw
  rw [hset, ok_bind, h, ok_bind]
  unfold setWithdrawalPenalty
  rw [require_of howner', ok_bind, require_of hp, ok_bind, ok_bind, require_of hle, ok_bind]
  exact ⟨_, rfl⟩

/-- Every preview is honoured, and the check of the proxy adds no failure to what the vault
does. -/
theorem previews_honoured {v₀ v : Vault} (h₀ : v₀.totalSupply = 0)
    (hp₀ : v₀.withdrawalPenalty ≤ maxWithdrawalPenalty) (h : Steps v₀ v) :
    (∀ sender n receiver v' m, v.mint sender n receiver = .ok (v', m) →
      ∃ a, v.previewMint n = .ok a ∧ m = n ∧
        v'.underlying.balanceOf = move v.underlying.balanceOf sender v.strategy a ∧
        v'.totalSupply = v.totalSupply + n ∧ v'.shares.balanceOf =
          update v.shares.balanceOf receiver (v.shares.balanceOf receiver + n)) ∧
    (∀ sender a receiver v' m, v.deposit sender a receiver = .ok (v', m) →
      v.previewDeposit a = .ok m ∧
        v'.underlying.balanceOf = move v.underlying.balanceOf sender v.strategy a ∧
        v'.totalSupply = v.totalSupply + m ∧ v'.shares.balanceOf =
          update v.shares.balanceOf receiver (v.shares.balanceOf receiver + m)) ∧
    (∀ sender m receiver owner v' x, v.redeem sender m receiver owner = .ok (v', x) →
      (∃ n, v'.underlying.balanceOf =
        move (move v.underlying.balanceOf v.strategy v.self n) v.self receiver x) ∧
      (∀ y, v.previewRedeem m = .ok y → y ≤ x) ∧
      (0 < v'.totalSupply → v.previewRedeem m = .ok x)) ∧
    (∀ sender a receiver owner v' x, v.withdraw sender a receiver owner = .ok (v', x) →
      (∃ n, v'.underlying.balanceOf =
        move (move v.underlying.balanceOf v.strategy v.self n) v.self receiver x) ∧
      (∃ m, v.previewWithdraw a = .ok m ∧ v'.totalSupply + m = v.totalSupply ∧
        v'.shares.balanceOf =
          update v.shares.balanceOf owner (v.shares.balanceOf owner - m)) ∧
      a ≤ x ∧
      (0 < v'.totalSupply → x * v.totalSupply < a * v.totalSupply + v.totalUnderlying)) ∧
    ∀ s : Bridge.AuraBalProxy, s.vault = v → ∀ a v₁,
      v.setWithdrawalPenalty s.self 0 = .ok v₁ →
        ((∃ s', s._withdraw a = .ok s') ↔
          ∃ r, v₁.withdraw s.self a s.self s.self = .ok r) := by
  have hle := h.supply_le h₀
  have hmax := h.penalty_le hp₀
  have hp : v.withdrawalPenalty < feeDenominator := hmax.trans_lt (by decide)
  refine ⟨fun sender n receiver v' m hx => ?_, fun sender a receiver v' m hx => ?_,
    fun sender m receiver owner v' x hx => ?_, fun sender a receiver owner v' x hx => ?_, ?_⟩
  · obtain ⟨rfl, a, ha, hx⟩ := mint_previewed hle hx
    have hd := deposit_eq_ok hx
    exact ⟨a, ha, rfl, (deposit_underlying hx).2, hd.supply, hd.balance⟩
  · have hd := deposit_eq_ok hx
    exact ⟨deposit_previewed hx, (deposit_underlying hx).2, hd.supply, hd.balance⟩
  · obtain ⟨n, hn, -⟩ := redeem_unstaked hx
    obtain ⟨heq, hge⟩ := redeem_previewed (redeem_eq_ok hx).pos hp.le hx
    exact ⟨⟨n, hn⟩, hge, heq⟩
  · obtain ⟨m, hm, hr, hge, hlt⟩ := withdraw_previewed hp hx
    obtain ⟨_, -, hx⟩ := bind_eq_ok.1 hx
    obtain ⟨n, hn, -⟩ := redeem_unstaked hx
    exact ⟨⟨n, hn⟩, ⟨m, hm, hr.supply, hr.balance⟩, hge, hlt⟩
  · rintro s rfl a v₁ hset
    constructor
    · rintro ⟨s', hs'⟩
      obtain ⟨w, hw, hs'⟩ := bind_eq_ok.1 hs'
      rw [hset] at hw
      cases hw
      obtain ⟨r, hr, -⟩ := bind_eq_ok.1 hs'
      exact ⟨r, hr⟩
    · rintro ⟨⟨v', x⟩, hx⟩
      exact proxy_withdraw_returns hmax hset hx

/-- Two accounts deposit, the strategy gains, and the first withdraws some of it, which the
strategy has. -/
theorem previews_honoured_run : ∃ v v' : Vault, ∃ x, v.withdraw 1 5 1 1 = .ok (v', x) ∧ 5 ≤ x ∧
    v.totalUnderlying ≤ v.underlying.balanceOf v.strategy := by
  let v := (Vault.initial 7).after [(1, .deposit 10 1), (2, .harvest), (1, .mint 3 2)]
  have hreturns : (v.withdraw 1 5 1 1).returns = true := by decide +kernel
  obtain ⟨⟨v', x⟩, hx⟩ := Tx.exists_ok hreturns
  obtain ⟨-, -, -, hwithdraw, -⟩ :=
    previews_honoured (v := v) rfl (by decide) (.after (by decide +kernel))
  exact ⟨v, v', x, hx, (hwithdraw 1 5 1 1 v' x hx).2.2.1, by decide +kernel⟩

end Aura.Compounder
