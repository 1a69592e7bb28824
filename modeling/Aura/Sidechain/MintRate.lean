import Aura.RunningRate
import Aura.Sidechain.Specs

/-!
# Sidechain : the rate of the mints

`L2Coordinator.mint` pays AURA at the rate of what it has left. Between a callback and the
next, and while no rewards are queued, its mints pay out at a running rate (`Mints.pays`), so
that it does not matter who claims first.
-/

open Evm Function

namespace Aura.Sidechain.L2Coordinator

open Bridge (ChainId Bytes)
open RunningRate (PriceLe rate pay pays)

/-- A mint of `_amount` that paid `paid` AURA. -/
structure Minting where
  sender : Address
  _to : Address
  _amount : ℕ
  paid : ℕ

def amounts (ms : List Minting) : List ℕ :=
  ms.map Minting._amount

def payments (ms : List Minting) : List ℕ :=
  ms.map Minting.paid

/-- `mint` succeeded, and `paid` is what it transferred. -/
structure Minted (s s' : L2Coordinator) (m : Minting) : Prop where
  mint : s.mint m.sender m._to m._amount = .ok s'
  paid : (s.takeRewards m._amount).map Prod.snd = .ok m.paid

/-- What happens between two mints : no rewards are queued, and no callback arrives. -/
inductive Between (chain : ChainId) (s s' : L2Coordinator) : Prop
  | call {sender : Address} {d : Call} {ms : List Message} (not_mint : ∀ a n, d ≠ .mint a n)
      (not_queue : ∀ n k, d ≠ .queueNewRewards n k) (done : s.exec chain sender d = .ok (s', ms))
  | message {p : Payload} (not_callback : ∀ n, p ≠ .feesCallback n)
      (done : s._nonblockingLzReceive p = .ok s')
  | oft {toAddressBytes : Bytes} {amount : ℕ} (done : s.creditOft toAddressBytes amount = .ok s')
  | elsewhere (done : s.Elsewhere s')

/-- A run of mints, without a callback or new rewards in between. -/
inductive Mints (chain : ChainId) : L2Coordinator → List Minting → L2Coordinator → Prop
  | refl (s : L2Coordinator) : Mints chain s [] s
  | between {s s₁ s' : L2Coordinator} {ms : List Minting} :
      Between chain s s₁ → Mints chain s₁ ms s' → Mints chain s ms s'
  | mint {s s₁ s' : L2Coordinator} {m : Minting} {ms : List Minting} :
      Minted s s₁ m → Mints chain s₁ ms s' → Mints chain s (m :: ms) s'

variable {chain : ChainId} {s s' : L2Coordinator} {m : Minting} {ms : List Minting} {n r : ℕ}

/-! ## One mint -/

theorem mintRate_eq_ok (h : s.mintRate = .ok r) :
    r = rate (10 ^ 18) s.accAuraRewards s.accBalRewards ∧
      (s.accBalRewards ≠ 0 → s.accAuraRewards * 10 ^ 18 < 2 ^ 256) := by
  unfold mintRate at h
  split_ifs at h with hzero
  · cases h
    exact ⟨by simp [rate, ProRata.portion, hzero], fun hne => absurd hzero hne⟩
  · obtain ⟨x, hx, h⟩ := bind_eq_ok.1 h
    obtain ⟨hlt, rfl⟩ := umul_eq_ok.1 hx
    obtain ⟨-, rfl⟩ := udiv_eq_ok.1 h
    exact ⟨rfl, fun _ => hlt⟩

theorem mintRate_of (hB : 0 < s.accBalRewards) (hlt : s.accAuraRewards * 10 ^ 18 < 2 ^ 256) :
    s.mintRate = .ok (rate (10 ^ 18) s.accAuraRewards s.accBalRewards) := by
  unfold mintRate
  rw [if_neg hB.ne', AuraMath.mul, umul_of hlt, ok_bind, AuraMath.div, udiv_of hB.ne']
  rfl

theorem mintRate_ne_underflow (s : L2Coordinator) : s.mintRate ≠ .error .underflow := by
  unfold mintRate
  split_ifs with hzero
  · exact ok_ne_underflow _
  · exact bind_ne_underflow (umul_ne_underflow _ _ _) fun _ _ => udiv_ne_underflow _ _

theorem takeRewards_paid {amount : ℕ} (h : s.takeRewards n = .ok (s', amount)) :
    amount = pay (10 ^ 18) s.accAuraRewards s.accBalRewards n := by
  obtain ⟨r, hr, h⟩ := bind_eq_ok.1 h
  obtain ⟨rfl, -⟩ := mintRate_eq_ok hr
  obtain ⟨-, h⟩ := require_bind_eq_ok.1 h
  obtain ⟨x, hx, h⟩ := bind_eq_ok.1 h
  obtain ⟨-, rfl⟩ := umul_eq_ok.1 hx
  obtain ⟨bal, -, h⟩ := bind_eq_ok.1 h
  obtain ⟨aura, -, h⟩ := bind_eq_ok.1 h
  cases h
  rw [Nat.mul_comm]
  rfl

/-- A mint of what is left returns, if there is a rate. -/
theorem exists_takeRewards (hn : n ≤ s.accBalRewards) (hr : s.mintRate = .ok r) (hpos : 0 < r) :
    ∃ s' amount, s.takeRewards n = .ok (s', amount) := by
  obtain ⟨rfl, hlt⟩ := mintRate_eq_ok hr
  have hB : s.accBalRewards ≠ 0 := fun hzero => by
    rw [hzero] at hpos
    simp [rate, ProRata.portion] at hpos
  have hmul : n * rate (10 ^ 18) s.accAuraRewards s.accBalRewards ≤ s.accAuraRewards * 10 ^ 18 := by
    rw [Nat.mul_comm]
    exact (Nat.mul_le_mul_left _ hn).trans (RunningRate.rate_mul_le _ _ _)
  have hpay := RunningRate.pay_le (A := s.accAuraRewards) (show 0 < 10 ^ 18 by norm_num) hn
  rw [pay, ProRata.portion, Nat.mul_comm] at hpay
  unfold takeRewards
  rw [hr, ok_bind, require_of hpos, ok_bind, umul_of (hmul.trans_lt (hlt hB)), ok_bind,
    AuraMath.sub, usub_of hn, ok_bind, AuraMath.sub, usub_of hpay, ok_bind]
  exact ⟨_, _, rfl⟩

theorem takeRewards_ne_underflow (hn : n ≤ s.accBalRewards) :
    s.takeRewards n ≠ .error .underflow := by
  intro h
  obtain hr | ⟨r, hr, h'⟩ := bind_eq_error.1 h
  · exact s.mintRate_ne_underflow hr
  obtain hp | ⟨u, hp, -⟩ := bind_eq_error.1 h'
  · exact require_ne_underflow _ hp
  -- with a rate the rest returns
  obtain ⟨s', amount, hok⟩ := exists_takeRewards hn hr (require_eq_ok.1 hp)
  rw [hok] at h
  cases h

theorem mint_ne_underflow (hn : n ≤ s.accBalRewards) (sender dst : Address) :
    s.mint sender dst n ≠ .error .underflow := by
  unfold mint
  refine bind_ne_underflow (require_ne_underflow _) fun _ _ => ?_
  refine bind_ne_underflow (takeRewards_ne_underflow hn) fun _ _ => ?_
  exact bind_ne_underflow (Erc20.transfer_ne_underflow _ _ _ _) fun _ _ => ok_ne_underflow _

/-- A mint takes what it pays from the accumulated rewards, and transfers it. -/
theorem Minted.takes (h : Minted s s' m) : ∃ s₁ t,
    s.takeRewards m._amount = .ok (s₁, m.paid) ∧
    (s.tokens s.auraOFT).transfer s.self m._to m.paid = .ok t ∧
    s' = { s₁ with tokens := update s.tokens s.auraOFT t } := by
  obtain ⟨-, hx⟩ := require_bind_eq_ok.1 h.mint
  obtain ⟨⟨s₁, amount⟩, hr, hx⟩ := bind_eq_ok.1 hx
  have hpaid := h.paid
  rw [hr] at hpaid
  obtain rfl : amount = m.paid := Except.ok.inj hpaid
  obtain ⟨t, ht, hx⟩ := bind_eq_ok.1 hx
  cases hx
  exact ⟨s₁, t, hr, ht, rfl⟩

theorem Minted.effect (h : Minted s s' m) : m._amount ≤ s.accBalRewards ∧
    m.paid = pay (10 ^ 18) s.accAuraRewards s.accBalRewards m._amount ∧
    s'.accBalRewards = s.accBalRewards - m._amount ∧
    s'.accAuraRewards = s.accAuraRewards - m.paid := by
  obtain ⟨s₁, t, hr, -, rfl⟩ := h.takes
  obtain ⟨hle, -, rfl⟩ := takeRewards_eq_ok hr
  exact ⟨hle, takeRewards_paid hr, rfl, rfl⟩

/-- What a mint pays moves from the coordinator to the receiver. -/
theorem Minted.moves (h : Minted s s' m) : s'.auraOFT = s.auraOFT ∧
    (s'.tokens s.auraOFT).balanceOf =
      move (s.tokens s.auraOFT).balanceOf s.self m._to m.paid := by
  obtain ⟨s₁, t, hr, ht, rfl⟩ := h.takes
  obtain ⟨-, -, rfl⟩ := takeRewards_eq_ok hr
  refine ⟨rfl, ?_⟩
  dsimp only
  rw [update_self]
  exact (Erc20.transfer_eq_ok ht).2.2.2.1

/-! ## Between two mints -/

/-- The accumulated rewards are the same. -/
def SameRewards (s s' : L2Coordinator) : Prop :=
  s'.accBalRewards = s.accBalRewards ∧ s'.accAuraRewards = s.accAuraRewards

theorem Between.sameRewards (h : Between chain s s') : SameRewards s s' := by
  cases h with
  | call hm hq hx => exact (exec_other hm hq hx).2
  | @message p hp hx =>
    cases p with
    | fees n =>
      cases hx
      exact ⟨rfl, rfl⟩
    | feesCallback n => exact absurd rfl (hp n)
  | oft hx =>
    obtain ⟨dst, -, hx⟩ := bind_eq_ok.1 hx
    obtain ⟨t, -, hx⟩ := bind_eq_ok.1 hx
    cases hx
    exact ⟨rfl, rfl⟩
  | elsewhere hx =>
    obtain ⟨tokens, rfl, -⟩ := hx
    exact ⟨rfl, rfl⟩

/-! ## A run of mints -/

/-- The mints are paid at a running rate. -/
theorem Mints.pays (h : Mints chain s ms s') : (amounts ms).sum ≤ s.accBalRewards ∧
    payments ms = pays (10 ^ 18) s.accAuraRewards s.accBalRewards (amounts ms) ∧
    s'.accBalRewards = s.accBalRewards - (amounts ms).sum ∧
    s'.accAuraRewards = s.accAuraRewards - (payments ms).sum := by
  induction h with
  | refl s => exact ⟨Nat.zero_le _, rfl, rfl, rfl⟩
  | between hb _ ih =>
    obtain ⟨hbal, haura⟩ := hb.sameRewards
    rw [hbal, haura] at ih
    exact ih
  | @mint s s₁ s' m ms hm _ ih =>
    obtain ⟨hle, hpaid, hbal, haura⟩ := hm.effect
    rw [hbal, haura] at ih
    obtain ⟨hsum, hpays, hbal', haura'⟩ := ih
    refine ⟨?_, ?_, ?_, ?_⟩
    · show m._amount + (amounts ms).sum ≤ _
      omega
    · show m.paid :: payments ms = _ :: _
      rw [hpays, hpaid]
      rfl
    · rw [hbal', Nat.sub_sub]
      rfl
    · rw [haura', Nat.sub_sub]
      rfl

theorem Mints.mintRate_le (h : Mints chain s ms s') (hr : s.mintRate = .ok r)
    (hpos : 0 < s'.accBalRewards) : ∃ r', s'.mintRate = .ok r' ∧ r ≤ r' := by
  obtain ⟨-, hpays, hbal, haura⟩ := h.pays
  obtain ⟨rfl, hlt⟩ := mintRate_eq_ok hr
  have hB : 0 < s.accBalRewards := by omega
  have hprice : PriceLe s.accAuraRewards s.accBalRewards s'.accAuraRewards s'.accBalRewards := by
    rw [hbal, haura, hpays]
    exact RunningRate.pays_price_le (by norm_num) _ _ _
  refine ⟨_, mintRate_of hpos ?_, hprice.rate_le hB hpos⟩
  have hle : s'.accAuraRewards ≤ s.accAuraRewards := haura ▸ Nat.sub_le _ _
  exact (Nat.mul_le_mul_right _ hle).trans_lt (hlt hB.ne')

theorem Mints.le_paid (h : Mints chain s ms s') (hm : m ∈ ms) :
    m._amount * (s.accAuraRewards * 10 ^ 18 / s.accBalRewards) / 10 ^ 18 ≤ m.paid := by
  obtain ⟨hsum, hpays, -, -⟩ := h.pays
  have hall := RunningRate.portion_le_pays (S := 10 ^ 18) (A := s.accAuraRewards) (by norm_num) hsum
    fun _ => le_rfl
  rw [← hpays, amounts, payments, List.forall₂_map_left_iff, List.forall₂_map_right_iff,
    List.forall₂_same] at hall
  rw [Nat.mul_comm]
  exact hall m hm

/-- The rate law of the mints : nothing underflows, the rate does not fall, every mint is paid
at least at the first rate, all together are paid no more than there is, and other mints of
the same total are paid the same but for rounding. What a mint is paid is what it moves out of
the AURA of the coordinator. -/
theorem mint_rate_law (h : Mints chain s ms s') (hB : 0 < s.accBalRewards) :
    (∀ _amount, (amounts ms).sum + _amount ≤ s.accBalRewards →
      (∀ sender _to, s'.mint sender _to _amount ≠ .error .underflow) ∧
      ∀ r, s'.mintRate = .ok r → 0 < r → ∃ s'' paid, s'.takeRewards _amount = .ok (s'', paid)) ∧
    (∀ r, s.mintRate = .ok r → 0 < s'.accBalRewards → ∃ r', s'.mintRate = .ok r' ∧ r ≤ r') ∧
    (∀ m ∈ ms,
      m._amount * (s.accAuraRewards * 10 ^ 18 / s.accBalRewards) / 10 ^ 18 ≤ m.paid) ∧
    (∀ s₁ s₂ m, Minted s₁ s₂ m → s₂.auraOFT = s₁.auraOFT ∧ (s₂.tokens s₁.auraOFT).balanceOf =
      move (s₁.tokens s₁.auraOFT).balanceOf s₁.self m._to m.paid) ∧
    (payments ms).sum ≤ s.accAuraRewards ∧
    ∀ ns s'', Mints chain s ns s'' → (amounts ns).sum = (amounts ms).sum →
      (payments ms).sum < (payments ns).sum + ns.length + s.accBalRewards / 10 ^ 18 + 1 := by
  have hscale : 0 < 10 ^ 18 := by norm_num
  obtain ⟨hsum, hpays, hbal, -⟩ := h.pays
  refine ⟨fun n hn => ?_, fun r hr hpos => h.mintRate_le hr hpos, fun m hm => h.le_paid hm,
    fun _ _ _ hm => hm.moves, ?_, fun ns s'' h' heq => ?_⟩
  · have hle : n ≤ s'.accBalRewards := by omega
    exact ⟨mint_ne_underflow hle, fun r hr hpos => exists_takeRewards hle hr hpos⟩
  · rw [hpays]
    exact RunningRate.sum_pays_le hscale hsum
  · obtain ⟨hsum', hpays', -, -⟩ := h'.pays
    have hle := RunningRate.sum_pays_le_add (A := s.accAuraRewards) hscale hB hsum heq.symm
    have hdiv : (amounts ns).sum / 10 ^ 18 ≤ s.accBalRewards / 10 ^ 18 := Nat.div_le_div_right hsum'
    have hlen : (amounts ns).length = ns.length := List.length_map _
    rw [← hpays, ← hpays', hlen] at hle
    omega

/-- A coordinator that has 10 wei of AURA for 3 wei of BAL. -/
def paying : L2Coordinator where
  self := 300
  owner := 1
  canonicalChainId := 101
  auraOFT := 200
  booster := 2
  balToken := 201
  bridgeDelegate := 4
  accBalRewards := 3
  pendingNotifyFees := 0
  accAuraRewards := 10
  trustedRemoteLookup _ := true
  tokens _ := Erc20.single 300 (10 ^ 30) Erc20.single_supply_lt fun _ _ => 0

/-- Two mints, and one of the same total : the two are paid one wei more, and the one gets
its 9 wei. -/
theorem mint_rate_law_run : ∃ s' s'' : L2Coordinator,
    Mints 110 paying [⟨2, 600, 1, 3⟩, ⟨2, 601, 2, 7⟩] s' ∧ Mints 110 paying [⟨2, 600, 3, 9⟩] s'' ∧
      payments [⟨2, 600, 1, 3⟩, ⟨2, 601, 2, 7⟩] = [3, 7] ∧ 3 + 7 < 9 + 1 + 3 / 10 ^ 18 + 1 ∧
      (s''.tokens 200).balanceOf 600 = 9 := by
  obtain ⟨s₁, h₁⟩ := Tx.exists_ok (show (paying.mint 2 600 1).returns = true by decide +kernel)
  have hret : (paying.mint 2 600 1 >>= fun s => s.mint 2 601 2).returns = true := by decide +kernel
  have hpaid : (paying.mint 2 600 1 >>= fun s => (s.takeRewards 2).map Prod.snd) = .ok 7 := by
    decide +kernel
  rw [h₁, ok_bind] at hret hpaid
  obtain ⟨s₂, h₂⟩ := Tx.exists_ok hret
  obtain ⟨s₃, h₃⟩ := Tx.exists_ok (show (paying.mint 2 600 3).returns = true by decide +kernel)
  have hm : Mints 110 paying [⟨2, 600, 1, 3⟩, ⟨2, 601, 2, 7⟩] s₂ :=
    .mint ⟨h₁, by decide +kernel⟩ (.mint ⟨h₂, hpaid⟩ (.refl s₂))
  have hminted : Minted paying s₃ ⟨2, 600, 3, 9⟩ := ⟨h₃, by decide +kernel⟩
  have hn : Mints 110 paying [⟨2, 600, 3, 9⟩] s₃ := .mint hminted (.refl s₃)
  obtain ⟨-, -, -, hmoves, -, hclose⟩ := mint_rate_law hm (by decide)
  have hbal : (s₃.tokens 200).balanceOf 600 = _ := congrFun (hmoves _ _ _ hminted).2 600
  exact ⟨s₂, s₃, hm, hn, rfl, hclose _ _ hn (by decide), hbal.trans (by decide +kernel)⟩

end Aura.Sidechain.L2Coordinator
