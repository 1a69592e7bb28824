import Aura.Escrow.Grants

/-!
# Escrow : the vesting law

Every reachable state is settled, so whatever the schedule of the claims, a recipient has
received what had vested when it last claimed. The payments that the law adds up are the
movements of the ledger (`exec_ledger`).
-/

open Evm Function Finset

namespace Aura.Escrow

variable {w w' : World} {log : Log} {r sender : Address} {c : Call}

theorem Settled.step (h : Settled log w) (hs : IsCaller w sender)
    (hx : exec w sender c = .ok w') : Settled (log ++ [⟨w.now, sender, c⟩]) w' := by
  cases c with
  | setAdmin a =>
    obtain ⟨-, hx⟩ := require_bind_eq_ok.1 hx
    refine h.config a w.escrow.auraLocker (fun r => ⟨rfl, rfl, ?_⟩) rfl
      (Except.ok.inj hx).symm
    simp [claims]
  | setLocker a =>
    obtain ⟨-, hx⟩ := require_bind_eq_ok.1 hx
    refine h.config w.escrow.admin a (fun r => ⟨rfl, rfl, ?_⟩) rfl
      (Except.ok.inj hx).symm
    simp [claims]
  | fund rs ns => exact h.fund hs hx
  | cancel r => exact h.cancel hx
  | claim b => exact h.claim hx

/-- Every reachable state is settled. -/
theorem Settled.of_reachable (h : system.Reachable log w) : Settled log w :=
  h.induct (fun _ => Settled.deployed) (fun _ _ _ => Settled.elsewhere)
    fun _ _ _ _ _ h hs hx => h.step hs hx

/-! ## No subtraction underflows -/

theorem available_ne_underflow (h : w.escrow.totalClaimed r ≤
    vested w.escrow (w.escrow.totalLocked r) w.now) : w.available r ≠ .error .underflow := by
  refine bind_ne_underflow (_totalVestedOf_ne_underflow w r w.now) fun v hv => ?_
  rw [_totalVestedOf_eq_ok hv, usub_of h]
  exact ok_ne_underflow _

theorem remaining_ne_underflow (w : World) (r : Address) : w.remaining r ≠ .error .underflow := by
  refine bind_ne_underflow (_totalVestedOf_ne_underflow w r w.now) fun v hv => ?_
  rw [_totalVestedOf_eq_ok hv, usub_of (vested_le _ _ _)]
  exact ok_ne_underflow _

theorem payOut_ne_underflow (w : World) (r : Address) (n : ℕ) (b : Bool) :
    w.payOut r n b ≠ .error .underflow := by
  unfold World.payOut
  cases b with
  | true =>
    refine bind_ne_underflow (require_ne_underflow _) fun _ _ => ?_
    refine bind_ne_underflow (Erc20.safeApprove_ne_underflow _ _ _ _) fun t _ => ?_
    exact lockerPull_ne_underflow _ _ _ _ _ _
  | false => exact Erc20.transfer_ne_underflow _ _ _ _

theorem _claim_ne_underflow (h : w.escrow.totalClaimed r ≤
    vested w.escrow (w.escrow.totalLocked r) w.now) (b : Bool) :
    w._claim r b ≠ .error .underflow := by
  refine bind_ne_underflow (available_ne_underflow h) fun claimable _ => ?_
  refine bind_ne_underflow (uadd_ne_underflow _ _ _) fun claimed _ => ?_
  exact bind_ne_underflow (payOut_ne_underflow w r claimable b) fun t _ => ok_ne_underflow _

theorem cancel_ne_underflow (h : w.escrow.totalClaimed r ≤
    vested w.escrow (w.escrow.totalLocked r) w.now) (sender : Address) :
    w.cancel sender r ≠ .error .underflow := by
  refine bind_ne_underflow (require_ne_underflow _) fun _ _ => ?_
  refine bind_ne_underflow (require_ne_underflow _) fun _ _ => ?_
  refine bind_ne_underflow (_claim_ne_underflow h false) fun w₁ _ => ?_
  refine bind_ne_underflow (remaining_ne_underflow w₁ r) fun delta _ => ?_
  exact bind_ne_underflow (Erc20.transfer_ne_underflow _ _ _ _) fun t _ => ok_ne_underflow _

/-! ## Payments are movements of the ledger -/

/-- The balances after a payment of the escrow `e`. -/
def Payment.apply (e : AuraVestedEscrow) (p : Payment) (balanceOf : Address → ℕ) : Address → ℕ :=
  match p with
  | .claim user amount locked =>
    move balanceOf e.self (if locked then e.auraLocker else user) amount
  | .refund _ amount => move balanceOf e.self e.admin amount

/-- Whether a call brings tokens. -/
def Call.isFund : Call → Bool
  | .fund _ _ => true
  | _ => false

theorem _claim_ledger {b : Bool} (hall : w.rewardToken.Unapproved w.escrow.self)
    (hx : w._claim r b = .ok w') : ∃ p : Payment, w'.payments = p :: w.payments ∧
      w'.rewardToken.balanceOf = p.apply w.escrow w.rewardToken.balanceOf := by
  obtain ⟨-, t, ht, rfl⟩ := _claim_eq_ok hx
  exact ⟨_, rfl, (payOut_eq_ok hall ht).2.1⟩

/-- The new payments of a call are what moves in the ledger. -/
theorem exec_ledger (hall : w.rewardToken.Unapproved w.escrow.self) (hc : c.isFund = false)
    (hx : exec w sender c = .ok w') : ∃ ps : List Payment, w'.payments = ps ++ w.payments ∧
      w'.rewardToken.balanceOf =
        ps.foldr (Payment.apply w.escrow) w.rewardToken.balanceOf := by
  cases c with
  | setAdmin a =>
    obtain ⟨-, hx⟩ := require_bind_eq_ok.1 hx
    cases hx
    exact ⟨[], rfl, rfl⟩
  | setLocker a =>
    obtain ⟨-, hx⟩ := require_bind_eq_ok.1 hx
    cases hx
    exact ⟨[], rfl, rfl⟩
  | fund rs ns => exact nomatch hc
  | cancel r =>
    obtain ⟨-, w₁, t, h₁, ht, rfl⟩ := cancel_eq_ok hx
    obtain ⟨p, hp, hb⟩ := _claim_ledger hall h₁
    obtain ⟨-, -, -, hb', -, -⟩ := Erc20.transfer_eq_ok ht
    obtain ⟨-, t₁, -, rfl⟩ := _claim_eq_ok h₁
    refine ⟨[_, p], congrArg (List.cons _) hp, ?_⟩
    rw [List.foldr_cons, List.foldr_cons, List.foldr_nil, ← hb]
    exact hb'
  | claim b =>
    obtain ⟨p, hp, hb⟩ := _claim_ledger hall hx
    exact ⟨[p], hp, hb⟩

/-! ## The law -/

theorem sum_filter_le_unclaimed {A : Type} [Fintype A] [DecidableEq A] (p : A → Prop)
    [DecidablePred p] (locked claimed : A → ℕ) :
    ∑ r with p r, (locked r - claimed r) ≤ unclaimed locked claimed := by
  unfold unclaimed
  exact sum_le_sum_of_subset (filter_subset _ _)

/-- In every run, a recipient that is not cancelled has received what had vested at its last
claim, nothing underflows for it, and its unclaimed grant is there; a cancelled one has
received what had vested when it was cancelled, and the admin the rest. -/
theorem vesting_law (h : system.Reachable log w) :
    (∀ r, cancelledAt r log = none →
      received r w.payments = (claimedAt r log).elim 0 (vested w.escrow (funded r log)) ∧
      w.available r ≠ .error .underflow ∧ w.remaining r ≠ .error .underflow ∧
      (∀ b, exec w r (.claim b) ≠ .error .underflow) ∧
      ∀ sender, exec w sender (.cancel r) ≠ .error .underflow) ∧
    (∀ r t, cancelledAt r log = some t →
      received r w.payments = vested w.escrow (funded r log) t ∧
      refunded r w.payments = funded r log - vested w.escrow (funded r log) t) ∧
    (∑ r with cancelledAt r log = none, (w.escrow.totalLocked r - w.escrow.totalClaimed r) ≤
      w.rewardToken.balanceOf w.escrow.self) ∧
    ∀ sender c w', c.isFund = false → exec w sender c = .ok w' →
      ∃ ps : List Payment, w'.payments = ps ++ w.payments ∧ w'.rewardToken.balanceOf =
        ps.foldr (Payment.apply w.escrow) w.rewardToken.balanceOf := by
  have hset := Settled.of_reachable h
  refine ⟨fun r hc => ?_, fun r t hc => ?_, ?_, fun sender c w' hf hx => ?_⟩
  · have hle := hset.totalClaimed_le hc
    refine ⟨?_, available_ne_underflow hle, remaining_ne_underflow w r,
      _claim_ne_underflow hle, cancel_ne_underflow hle⟩
    rw [(hset.account r).received]
    exact ((hset.account r).running hc).2.2
  · obtain ⟨-, -, hcl, href⟩ := (hset.account r).ended t hc
    exact ⟨(hset.account r).received.trans hcl, href⟩
  · exact (sum_filter_le_unclaimed _ _ _).trans hset.solvent
  · exact exec_ledger hset.unapproved hf hx

/-! ## A run -/

/-- An escrow at the address 300 for the funder 1 and the admin 2, 16 weeks from the time
2000 on. The account 1 holds 10^30 tokens, and all but the escrow have approved everybody. -/
def World.initial : World where
  now := 1000
  rewardToken := Erc20.single 1 (10 ^ 30) Erc20.single_supply_lt fun a _ =>
    if a = 300 then 0 else 2 ^ 256 - 1
  accepts _ _ n := decide (0 < n)
  escrow := ⟨300, 2, 1, 200, 2000, 2000 + minTotalTime, minTotalTime, false, fun _ => 0, fun _ => 0⟩
  payments := []

theorem World.initial_deployed : Deployed World.initial where
  self_ne := show (300 : Address) ≠ 0 by decide
  deploy := ⟨2, 200, 2000, 2000 + minTotalTime, by
    simp [deploy, World.initial, require, usub_of, minTotalTime]⟩
  unapproved _ := rfl
  payments := rfl

/-- The world at a later time. -/
def World.at (w : World) (now : ℕ) : World :=
  { w with now }

theorem World.elsewhere_at (w : World) (now : ℕ) (h : w.now ≤ now) : Elsewhere w (w.at now) :=
  ⟨h, Erc20.Others.refl _ _, rfl, rfl⟩

/-- Two grants to the account 3 and one to 4, two claims and a cancellation. -/
def World.someCalls : Log :=
  [⟨1500, 1, .fund [3, 4, 3] [100, 50, 200]⟩, ⟨4840400, 3, .claim true⟩,
    ⟨5000000, 2, .cancel 4⟩, ⟨7259600, 3, .claim false⟩]

theorem vesting_law_run : ∃ w, system.Reachable World.someCalls w ∧
    received 3 w.payments = vested w.escrow 300 7259600 ∧
    received 4 w.payments = vested w.escrow 50 5000000 ∧
    refunded 4 w.payments = 50 - vested w.escrow 50 5000000 := by
  obtain ⟨w, hw⟩ := Tx.exists_ok (show (system.play World.at World.initial
    World.someCalls).returns = true by decide +kernel)
  have hreach : system.Reachable World.someCalls w :=
    ⟨_, World.initial_deployed, .play World.elsewhere_at hw⟩
  obtain ⟨hrun, hend, -⟩ := vesting_law hreach
  exact ⟨w, hreach, (hrun 3 (by decide +kernel)).1, hend 4 5000000 (by decide +kernel)⟩

end Aura.Escrow
