import Aura.Escrow.AuraVestedEscrow
import Mathlib.Algebra.BigOperators.Group.List.Basic

/-!
# Escrow : what the recipients get

The log of a run says what each recipient was granted, when it last claimed and when it was
cancelled. What it has received is a function of these alone : a claim at `t` pays the
difference to what has vested at `t`, so the schedule of the claims before it does not matter
(`Settled`). What has not been claimed is there (`Settled.solvent`).
-/

open Evm Function Finset

namespace Aura.Escrow

abbrev Log := List (Event Address Call)

/-! ## What a log says -/

/-- The amount that a list of pairs gives to `r`. -/
def amountFor (r : Address) (rs : List (Address × ℕ)) : ℕ :=
  (rs.map fun x => if x.1 = r then x.2 else 0).sum

/-- What a call grants to `r`. -/
def granted (r : Address) : Call → ℕ
  | .fund _recipient _amount => amountFor r (_recipient.zip _amount)
  | _ => 0

/-- What the calls of a log have granted to `r`. -/
def funded (r : Address) (log : Log) : ℕ :=
  (log.map fun e => granted r e.call).sum

/-- The call cancels `r`. -/
def cancels (r : Address) (e : Event Address Call) : Bool :=
  decide (e.call = .cancel r)

/-- The call is a claim by `r`. -/
def claims (r : Address) (e : Event Address Call) : Bool :=
  decide (e.sender = r ∧ (e.call = .claim false ∨ e.call = .claim true))

/-- When `r` was cancelled. -/
def cancelledAt (r : Address) (log : Log) : Option ℕ :=
  (log.find? (cancels r)).map Event.time

/-- When `r` last claimed. -/
def claimedAt (r : Address) (log : Log) : Option ℕ :=
  (log.filter (claims r)).getLast?.map Event.time

/-- What the recipient `r` has received. -/
def received (r : Address) : List Payment → ℕ
  | [] => 0
  | .claim user amount _ :: ps => (if user = r then amount else 0) + received r ps
  | .refund _ _ :: ps => received r ps

/-- What the admin got back for `r`. -/
def refunded (r : Address) : List Payment → ℕ
  | [] => 0
  | .claim _ _ _ :: ps => refunded r ps
  | .refund recipient amount :: ps => (if recipient = r then amount else 0) + refunded r ps

section

variable (r : Address) (log : Log) (e : Event Address Call)

theorem funded_append : funded r (log ++ [e]) = funded r log + granted r e.call := by
  simp [funded]

theorem cancelledAt_append :
    cancelledAt r (log ++ [e]) =
      (cancelledAt r log).or (if cancels r e then some e.time else none) := by
  unfold cancelledAt
  rw [List.find?_append]
  cases hl : log.find? (cancels r) with
  | some x => rfl
  | none =>
    cases hc : cancels r e with
    | true => simp [hc]
    | false => simp [hc]

theorem claimedAt_append :
    claimedAt r (log ++ [e]) = if claims r e then some e.time else claimedAt r log := by
  unfold claimedAt
  rw [List.filter_append]
  cases hc : claims r e with
  | true => simp [hc]
  | false => simp [hc]

variable {r log}

theorem mem_of_claimedAt {t : ℕ} (h : claimedAt r log = some t) : ∃ e ∈ log, e.time = t := by
  unfold claimedAt at h
  obtain ⟨e, he, rfl⟩ := Option.map_eq_some_iff.1 h
  exact ⟨e, (List.mem_filter.1 (List.mem_of_getLast? he)).1, rfl⟩

end

/-! ## Vesting -/

/-- What has vested of `locked` at `t`. -/
def vested (e : AuraVestedEscrow) (locked t : ℕ) : ℕ :=
  if t < e.startTime then 0 else Nat.min (locked * (t - e.startTime) / e.totalTime) locked

variable {w w' : World} {log : Log} {r sender : Address} {e : AuraVestedEscrow}

theorem vested_le (e : AuraVestedEscrow) (locked t : ℕ) : vested e locked t ≤ locked := by
  unfold vested
  split_ifs
  · exact Nat.zero_le _
  · exact Nat.min_le_right _ _

theorem vested_zero (e : AuraVestedEscrow) (t : ℕ) : vested e 0 t = 0 :=
  Nat.le_zero.1 (vested_le e 0 t)

theorem vested_of_lt {t : ℕ} (h : t < e.startTime) (locked : ℕ) : vested e locked t = 0 :=
  if_pos h

/-- What has vested stays so. -/
theorem vested_mono (locked : ℕ) {t t' : ℕ} (h : t ≤ t') :
    vested e locked t ≤ vested e locked t' := by
  unfold vested
  split_ifs with h₁ h₂
  · exact le_rfl
  · exact Nat.zero_le _
  · omega
  · have hmul : locked * (t - e.startTime) ≤ locked * (t' - e.startTime) :=
      Nat.mul_le_mul_left _ (by omega)
    exact le_min ((Nat.min_le_left _ _).trans (Nat.div_le_div_right hmul)) (Nat.min_le_right _ _)

/-- The code computes what has vested. -/
theorem _totalVestedOf_eq_ok {t v : ℕ} (h : w._totalVestedOf r t = .ok v) :
    v = vested w.escrow (w.escrow.totalLocked r) t := by
  unfold World._totalVestedOf at h
  unfold vested
  split_ifs at h ⊢ with ht
  · exact (Except.ok.inj h).symm
  · obtain ⟨elapsed, he, h⟩ := bind_eq_ok.1 h
    obtain ⟨x, hx, h⟩ := bind_eq_ok.1 h
    obtain ⟨y, hy, h⟩ := bind_eq_ok.1 h
    rw [← (usub_eq_ok.1 he).2, ← (umul_eq_ok.1 hx).2, ← (udiv_eq_ok.1 hy).2, ← AuraMath.min_eq]
    exact (Except.ok.inj h).symm

theorem _totalVestedOf_ne_underflow (w : World) (r : Address) (t : ℕ) :
    w._totalVestedOf r t ≠ .error .underflow := by
  unfold World._totalVestedOf
  split_ifs with ht
  · exact ok_ne_underflow _
  · rw [usub_of (not_lt.1 ht), ok_bind]
    refine bind_ne_underflow (umul_ne_underflow _ _ _) fun x _ => ?_
    exact bind_ne_underflow (udiv_ne_underflow _ _) fun y _ => ok_ne_underflow _

/-! ## What each function does -/

section Unclaimed

variable {A : Type} [Fintype A] [DecidableEq A]

/-- What has been locked and not claimed. -/
def unclaimed (locked claimed : A → ℕ) : ℕ :=
  ∑ r, (locked r - claimed r)

theorem unclaimed_claim (locked claimed : A → ℕ) (r : A) (v : ℕ) :
    unclaimed locked (update claimed r v) + (locked r - claimed r) =
      unclaimed locked claimed + (locked r - v) := by
  have hsum := sum_update_add (fun x => locked x - claimed x) r (locked r - v)
  have heq : (fun x => locked x - update claimed r v x) =
      update (fun x => locked x - claimed x) r (locked r - v) := by
    ext x
    by_cases hx : x = r
    · subst hx
      simp
    · simp [hx]
  rwa [unclaimed, heq]

theorem unclaimed_cancel (locked claimed : A → ℕ) (r : A) :
    unclaimed (update locked r 0) claimed + (locked r - claimed r) = unclaimed locked claimed := by
  have hsum := sum_update_add (fun x => locked x - claimed x) r 0
  have heq : (fun x => update locked r 0 x - claimed x) =
      update (fun x => locked x - claimed x) r 0 := by
    ext x
    by_cases hx : x = r
    · subst hx
      simp
    · simp [hx]
  rwa [unclaimed, heq]

omit [DecidableEq A] in
theorem unclaimed_le (locked claimed : A → ℕ) : unclaimed locked claimed ≤ ∑ r, locked r :=
  sum_le_sum fun _ _ => Nat.sub_le _ _

omit [DecidableEq A] in
theorem unclaimed_eq_zero {locked : A → ℕ} (h : ∀ r, locked r = 0) (claimed : A → ℕ) :
    unclaimed locked claimed = 0 :=
  sum_eq_zero fun r _ => by rw [h, Nat.zero_sub]

-- sums over all accounts are compared by the lemmas above and never unfolded
attribute [irreducible] unclaimed

end Unclaimed

/-- The loop of `fund` adds every amount to its recipient and to the total. -/
theorem fundRound_foldlM {rs : List (Address × ℕ)} {s s' : (Address → ℕ) × ℕ}
    (h : rs.foldlM World.fundRound s = .ok s') :
    (∀ r, s'.1 r = s.1 r + amountFor r rs) ∧ s'.2 + ∑ r, s.1 r = s.2 + ∑ r, s'.1 r := by
  induction rs generalizing s with
  | nil =>
    cases h
    exact ⟨fun _ => rfl, rfl⟩
  | cons x rs ih =>
    rw [List.foldlM_cons] at h
    obtain ⟨s₁, h₁, h⟩ := bind_eq_ok.1 h
    obtain ⟨locked, hl, h₁⟩ := bind_eq_ok.1 h₁
    obtain ⟨total, ht, h₁⟩ := bind_eq_ok.1 h₁
    cases h₁
    obtain ⟨-, rfl⟩ := uadd_eq_ok.1 hl
    obtain ⟨-, rfl⟩ := uadd_eq_ok.1 ht
    obtain ⟨hr, hsum⟩ := ih h
    dsimp only at hr hsum
    constructor
    · intro r
      have hcons : amountFor r (x :: rs) = (if x.1 = r then x.2 else 0) + amountFor r rs := by
        simp [amountFor]
      rw [hr, hcons]
      by_cases hx : x.1 = r
      · subst hx
        rw [update_self, if_pos rfl]
        omega
      · rw [update_of_ne (Ne.symm hx), if_neg hx]
        omega
    · have := sum_update_of_add s.1 x.1 x.2
      omega

/-- The state after a successful `fund`. -/
theorem fund_eq_ok {rs : List Address} {ns : List ℕ} (h : w.fund sender rs ns = .ok w') :
    w.escrow.initialised = false ∧ w.now < w.escrow.startTime ∧ ∃ f total t,
      (∀ r, f r = w.escrow.totalLocked r + amountFor r (rs.zip ns)) ∧
      total + ∑ r, w.escrow.totalLocked r = ∑ r, f r ∧
      w.rewardToken.transferFrom w.escrow.self sender w.escrow.self total = .ok t ∧
      w' = { w with
        rewardToken := t
        escrow := { w.escrow with initialised := true, totalLocked := f } } := by
  unfold World.fund at h
  obtain ⟨-, h⟩ := require_bind_eq_ok.1 h
  obtain ⟨hinit, h⟩ := require_bind_eq_ok.1 h
  obtain ⟨-, h⟩ := require_bind_eq_ok.1 h
  obtain ⟨hnow, h⟩ := require_bind_eq_ok.1 h
  obtain ⟨s, hs, h⟩ := bind_eq_ok.1 h
  obtain ⟨t, ht, h⟩ := bind_eq_ok.1 h
  obtain ⟨hr, hsum⟩ := fundRound_foldlM hs
  refine ⟨hinit, hnow, s.1, s.2, t, hr, ?_, ht, (Except.ok.inj h).symm⟩
  simpa using hsum

/-- A payment moves the amount to the recipient or its lock, and leaves no approval. -/
theorem payOut_eq_ok {n : ℕ} {b : Bool} {t : Erc20 Address}
    (hall : w.rewardToken.Unapproved w.escrow.self) (h : w.payOut r n b = .ok t) :
    n ≤ w.rewardToken.balanceOf w.escrow.self ∧
      t.balanceOf = move w.rewardToken.balanceOf w.escrow.self
        (if b then w.escrow.auraLocker else r) n ∧
      t.Unapproved w.escrow.self := by
  unfold World.payOut at h
  cases b with
  | true =>
    rw [if_pos rfl] at h ⊢
    obtain ⟨-, h⟩ := require_bind_eq_ok.1 h
    obtain ⟨t₁, h₁, h⟩ := bind_eq_ok.1 h
    exact hall.approve_pull (Erc20.safeApprove_eq_ok h₁) (lockerPull_eq_ok h).2
  | false =>
    rw [if_neg Bool.false_ne_true] at h ⊢
    obtain ⟨-, -, hn, hb, -, -⟩ := Erc20.transfer_eq_ok h
    exact ⟨hn, hb, hall.transfer h⟩

/-- The state after a successful claim for `r` : it has claimed what has vested. -/
theorem _claim_eq_ok {b : Bool} (h : w._claim r b = .ok w') :
    w.escrow.totalClaimed r ≤ vested w.escrow (w.escrow.totalLocked r) w.now ∧ ∃ t,
      w.payOut r (vested w.escrow (w.escrow.totalLocked r) w.now - w.escrow.totalClaimed r) b =
        .ok t ∧
      w' = { w with
        rewardToken := t
        escrow := { w.escrow with
          totalClaimed := update w.escrow.totalClaimed r
            (vested w.escrow (w.escrow.totalLocked r) w.now) }
        payments := .claim r
          (vested w.escrow (w.escrow.totalLocked r) w.now - w.escrow.totalClaimed r) b ::
            w.payments } := by
  unfold World._claim World.available at h
  obtain ⟨claimable, ha, h⟩ := bind_eq_ok.1 h
  obtain ⟨claimed, hc, h⟩ := bind_eq_ok.1 h
  obtain ⟨t, ht, h⟩ := bind_eq_ok.1 h
  obtain ⟨v, hv, ha⟩ := bind_eq_ok.1 ha
  obtain ⟨hle, rfl⟩ := usub_eq_ok.1 ha
  obtain ⟨-, rfl⟩ := uadd_eq_ok.1 hc
  obtain rfl := _totalVestedOf_eq_ok hv
  rw [Nat.add_sub_cancel' hle] at h
  exact ⟨hle, t, ht, (Except.ok.inj h).symm⟩

/-- The state after a successful cancellation : a claim, and then the rest for the admin. -/
theorem cancel_eq_ok (h : w.cancel sender r = .ok w') :
    0 < w.escrow.totalLocked r ∧ ∃ w₁ t, w._claim r false = .ok w₁ ∧
      w₁.rewardToken.transfer w₁.escrow.self w₁.escrow.admin
        (w₁.escrow.totalLocked r - vested w₁.escrow (w₁.escrow.totalLocked r) w₁.now) = .ok t ∧
      w' = { w₁ with
        rewardToken := t
        escrow := { w₁.escrow with totalLocked := update w₁.escrow.totalLocked r 0 }
        payments := .refund r (w₁.escrow.totalLocked r -
          vested w₁.escrow (w₁.escrow.totalLocked r) w₁.now) :: w₁.payments } := by
  unfold World.cancel at h
  obtain ⟨-, h⟩ := require_bind_eq_ok.1 h
  obtain ⟨hpos, h⟩ := require_bind_eq_ok.1 h
  obtain ⟨w₁, h₁, h⟩ := bind_eq_ok.1 h
  obtain ⟨delta, hd, h⟩ := bind_eq_ok.1 h
  obtain ⟨t, ht, h⟩ := bind_eq_ok.1 h
  obtain ⟨v, hv, hd⟩ := bind_eq_ok.1 hd
  obtain ⟨-, rfl⟩ := usub_eq_ok.1 hd
  obtain rfl := _totalVestedOf_eq_ok hv
  exact ⟨hpos, w₁, t, h₁, ht, (Except.ok.inj h).symm⟩

/-! ## The invariant -/

/-- What the log says about the recipient `r`. -/
structure Account (log : Log) (w : World) (r : Address) : Prop where
  received : received r w.payments = w.escrow.totalClaimed r
  running : cancelledAt r log = none → w.escrow.totalLocked r = funded r log ∧
    refunded r w.payments = 0 ∧
    w.escrow.totalClaimed r = (claimedAt r log).elim 0 (vested w.escrow (funded r log))
  ended : ∀ t, cancelledAt r log = some t → w.escrow.totalLocked r = 0 ∧
    w.escrow.initialised = true ∧ w.escrow.totalClaimed r = vested w.escrow (funded r log) t ∧
    refunded r w.payments = funded r log - vested w.escrow (funded r log) t

/-- The log explains the storage, and the escrow holds what has not been claimed. -/
structure Settled (log : Log) (w : World) : Prop where
  self_ne : w.escrow.self ≠ 0
  unapproved : w.rewardToken.Unapproved w.escrow.self
  times : ∀ e ∈ log, e.time ≤ w.now
  unfunded : w.escrow.initialised = false → ∀ r, funded r log = 0 ∧ cancelledAt r log = none
  account : ∀ r, Account log w r
  solvent : unclaimed w.escrow.totalLocked w.escrow.totalClaimed ≤
    w.rewardToken.balanceOf w.escrow.self

/-- The call `e` is not about `r`. -/
def Apart (r : Address) (e : Event Address Call) : Prop :=
  granted r e.call = 0 ∧ cancels r e = false ∧ claims r e = false

/-- The storage says the same about `r`. -/
structure SameFor (r : Address) (w w' : World) : Prop where
  startTime : w'.escrow.startTime = w.escrow.startTime
  totalTime : w'.escrow.totalTime = w.escrow.totalTime
  initialised : w.escrow.initialised = true → w'.escrow.initialised = true
  totalLocked : w'.escrow.totalLocked r = w.escrow.totalLocked r
  totalClaimed : w'.escrow.totalClaimed r = w.escrow.totalClaimed r
  received : received r w'.payments = received r w.payments
  refunded : refunded r w'.payments = refunded r w.payments

theorem SameFor.vested (h : SameFor r w w') : vested w'.escrow = vested w.escrow := by
  funext locked t
  simp only [Escrow.vested, h.startTime, h.totalTime]

/-- A call that is not about `r` keeps what the log says about it. -/
theorem Account.apart {e : Event Address Call} (h : Account log w r) (he : Apart r e)
    (hs : SameFor r w w') : Account (log ++ [e]) w' r := by
  obtain ⟨hg, hc, hcl⟩ := he
  have hf : funded r (log ++ [e]) = funded r log := by rw [funded_append, hg, Nat.add_zero]
  have hcan : cancelledAt r (log ++ [e]) = cancelledAt r log := by
    rw [cancelledAt_append, hc]
    exact Option.or_none
  have hclaim : claimedAt r (log ++ [e]) = claimedAt r log := by
    rw [claimedAt_append, hcl]
    rfl
  constructor
  · rw [hs.received, hs.totalClaimed, h.received]
  · rw [hcan, hf, hclaim, hs.totalLocked, hs.refunded, hs.totalClaimed, hs.vested]
    exact h.running
  · intro t ht
    rw [hcan] at ht
    obtain ⟨hl, hi, hx⟩ := h.ended t ht
    rw [hf, hs.totalLocked, hs.refunded, hs.totalClaimed, hs.vested]
    exact ⟨hl, hs.initialised hi, hx⟩

theorem Settled.totalLocked_of_unfunded (h : Settled log w) (hi : w.escrow.initialised = false)
    (r : Address) : w.escrow.totalLocked r = 0 := by
  obtain ⟨hf, hc⟩ := h.unfunded hi r
  rw [((h.account r).running hc).1, hf]

/-- Nobody has claimed more than what has vested, unless it was cancelled. -/
theorem Settled.totalClaimed_le (h : Settled log w) (hc : cancelledAt r log = none) :
    w.escrow.totalClaimed r ≤ vested w.escrow (w.escrow.totalLocked r) w.now := by
  obtain ⟨hl, -, hcl⟩ := (h.account r).running hc
  rw [hl, hcl]
  cases ht : claimedAt r log with
  | none => exact Nat.zero_le _
  | some t =>
    obtain ⟨e, he, rfl⟩ := mem_of_claimedAt ht
    exact vested_mono _ (h.times e he)

theorem times_append {e : Event Address Call} (h : ∀ e ∈ log, e.time ≤ w.now)
    (hn : w'.now = w.now) (he : e.time = w.now) : ∀ d ∈ log ++ [e], d.time ≤ w'.now := by
  intro x hx
  rw [hn]
  rcases List.mem_append.1 hx with hx | hx
  · exact h x hx
  · rw [List.mem_singleton.1 hx, he]

/-! ## Steps -/

theorem Settled.deployed (h : Deployed w) : Settled [] w := by
  obtain ⟨admin, auraLocker, startTime, endTime, hd⟩ := h.deploy
  obtain ⟨-, hd⟩ := require_bind_eq_ok.1 hd
  obtain ⟨-, hd⟩ := require_bind_eq_ok.1 hd
  obtain ⟨totalTime, -, hd⟩ := bind_eq_ok.1 hd
  obtain ⟨-, hd⟩ := require_bind_eq_ok.1 hd
  have he := Except.ok.inj hd
  have hl : ∀ r, w.escrow.totalLocked r = 0 := fun r => by rw [← he]
  have hc : ∀ r, w.escrow.totalClaimed r = 0 := fun r => by rw [← he]
  refine ⟨h.self_ne, h.unapproved, by simp, fun _ r => ⟨rfl, rfl⟩, fun r => ?_, ?_⟩
  · refine ⟨?_, fun _ => ⟨hl r, ?_, hc r⟩, fun t ht => nomatch ht⟩
    · rw [h.payments, hc]
      rfl
    · rw [h.payments]
      rfl
  · rw [unclaimed_eq_zero hl _]
    exact Nat.zero_le _

theorem Settled.elsewhere (h : Settled log w) (he : Elsewhere w w') : Settled log w' := by
  have hself : w'.escrow.self = w.escrow.self := by rw [he.escrow]
  refine ⟨by rw [hself]; exact h.self_ne, ?_, fun e hl => (h.times e hl).trans he.now, ?_,
    fun r => ?_, ?_⟩
  · rw [hself]
    exact he.rewardToken.unapproved h.unapproved
  · rw [he.escrow]
    exact h.unfunded
  · obtain ⟨hr, hrun, hend⟩ := h.account r
    constructor
    · rw [he.escrow, he.payments]
      exact hr
    · rw [he.escrow, he.payments]
      exact hrun
    · rw [he.escrow, he.payments]
      exact hend
  · rw [hself, he.escrow]
    exact h.solvent.trans (he.rewardToken.balanceOf h.unapproved)

/-- Calls that set an address. -/
theorem Settled.config {e : Event Address Call} (h : Settled log w) (admin auraLocker : Address)
    (he : ∀ r, Apart r e) (ht : e.time = w.now)
    (hw : w' = { w with escrow := { w.escrow with admin, auraLocker } }) :
    Settled (log ++ [e]) w' := by
  subst hw
  refine ⟨h.self_ne, h.unapproved, times_append h.times rfl ht, fun hi r => ?_, fun r => ?_,
    h.solvent⟩
  · obtain ⟨hf, hc⟩ := h.unfunded hi r
    obtain ⟨hg, hcan, -⟩ := he r
    rw [funded_append, cancelledAt_append, hf, hc, hg, hcan]
    exact ⟨rfl, rfl⟩
  · exact (h.account r).apart (he r) ⟨rfl, rfl, id, rfl, rfl, rfl, rfl⟩

/-- The funder grants the amounts : nothing had vested before. -/
theorem Settled.fund {rs : List Address} {ns : List ℕ} (h : Settled log w)
    (hs : IsCaller w sender) (hx : w.fund sender rs ns = .ok w') :
    Settled (log ++ [⟨w.now, sender, .fund rs ns⟩]) w' := by
  obtain ⟨hinit, hnow, f, total, t, hf, hsum, ht, rfl⟩ := fund_eq_ok hx
  have hl := h.totalLocked_of_unfunded hinit
  have hfr : ∀ r, funded r (log ++ [⟨w.now, sender, .fund rs ns⟩]) = f r := fun r => by
    rw [funded_append, (h.unfunded hinit r).1, hf, hl]
    rfl
  have hcan : ∀ r, cancelledAt r (log ++ [⟨w.now, sender, .fund rs ns⟩]) = none := fun r => by
    rw [cancelledAt_append, (h.unfunded hinit r).2]
    rfl
  have hc : ∀ r, w.escrow.totalClaimed r = 0 := fun r => by
    have hle := h.totalClaimed_le (h.unfunded hinit r).2
    rw [hl, vested_zero] at hle
    exact Nat.le_zero.1 hle
  refine ⟨h.self_ne, h.unapproved.transferFrom ht, times_append h.times rfl rfl, nofun,
    fun r => ?_, ?_⟩
  · refine ⟨(h.account r).received, fun _ => ⟨(hfr r).symm, ?_, ?_⟩, fun t' ht' => ?_⟩
    · exact ((h.account r).running (h.unfunded hinit r).2).2.1
    · -- all claims so far were before the start
      rw [hfr, claimedAt_append, if_neg (by simp [claims])]
      show w.escrow.totalClaimed r = (claimedAt r log).elim 0 (vested w.escrow (f r))
      rw [hc]
      cases htc : claimedAt r log with
      | none => rfl
      | some t' =>
        obtain ⟨e, he, rfl⟩ := mem_of_claimedAt htc
        exact (vested_of_lt ((h.times e he).trans_lt hnow) _).symm
    · rw [hcan] at ht'
      exact nomatch ht'
  · obtain ⟨-, hle, hb, -⟩ := Erc20.transferFrom_eq_ok ht
    have hsum0 : ∑ r, w.escrow.totalLocked r = 0 := sum_eq_zero fun r _ => hl r
    have hdst := move_dst w.rewardToken.balanceOf total hs.2
    refine (unclaimed_le _ _).trans ?_
    show ∑ r, f r ≤ t.balanceOf w.escrow.self
    rw [hb, hdst]
    omega

/-- What a claim by `r` leaves : the balance and the unclaimed grants fall by as much. -/
theorem Settled.solvent_claim {b : Bool} (h : Settled log w) (hx : w._claim r b = .ok w') :
    w'.rewardToken.Unapproved w'.escrow.self ∧
      unclaimed w'.escrow.totalLocked w'.escrow.totalClaimed ≤
        w'.rewardToken.balanceOf w'.escrow.self := by
  obtain ⟨hle, t, ht, rfl⟩ := _claim_eq_ok hx
  obtain ⟨hn, hb, hall⟩ := payOut_eq_ok h.unapproved ht
  refine ⟨hall, ?_⟩
  have hv := vested_le w.escrow (w.escrow.totalLocked r) w.now
  have hsum := unclaimed_claim w.escrow.totalLocked w.escrow.totalClaimed r
    (vested w.escrow (w.escrow.totalLocked r) w.now)
  have hbal := le_move_add w.rewardToken.balanceOf w.escrow.self
    (if b then w.escrow.auraLocker else r)
    (vested w.escrow (w.escrow.totalLocked r) w.now - w.escrow.totalClaimed r) w.escrow.self
  have hsol := h.solvent
  rw [← hb] at hbal
  dsimp only
  omega

theorem received_claim_self (amount : ℕ) (b : Bool) (ps : List Payment) :
    received r (.claim r amount b :: ps) = amount + received r ps := by
  simp [received]

theorem received_claim_of_ne {r' : Address} (h : r' ≠ r) (amount : ℕ) (b : Bool)
    (ps : List Payment) : received r (.claim r' amount b :: ps) = received r ps := by
  simp [received, h]

theorem claims_self (r : Address) (t : ℕ) (b : Bool) : claims r ⟨t, r, .claim b⟩ = true := by
  cases b <;> simp [claims]

/-- What a claim by `r` leaves in its own account. -/
theorem Account.claim {b : Bool} (h : Account log w r) (hx : w._claim r b = .ok w') :
    Account (log ++ [⟨w.now, r, .claim b⟩]) w' r := by
  obtain ⟨hle, t, -, rfl⟩ := _claim_eq_ok hx
  obtain ⟨hrec, hrun, hend⟩ := h
  have hf : funded r (log ++ [⟨w.now, r, .claim b⟩]) = funded r log := by
    rw [funded_append]
    rfl
  have hcan : cancelledAt r (log ++ [⟨w.now, r, .claim b⟩]) = cancelledAt r log := by
    rw [cancelledAt_append]
    exact Option.or_none
  refine ⟨?_, fun hc => ?_, fun t' ht' => ?_⟩
  · show Escrow.received r (.claim r _ b :: w.payments) = update w.escrow.totalClaimed r _ r
    rw [received_claim_self, update_self, hrec]
    omega
  · rw [hcan] at hc
    obtain ⟨hl, href, -⟩ := hrun hc
    refine ⟨hl.trans hf.symm, href, ?_⟩
    rw [hf, claimedAt_append, claims_self, if_pos rfl]
    show update w.escrow.totalClaimed r _ r = vested w.escrow (funded r log) w.now
    rw [update_self, hl]
  · -- a cancelled recipient has nothing locked, so nothing has vested
    rw [hcan] at ht'
    obtain ⟨hl, hi, hcl, href⟩ := hend t' ht'
    rw [hl, vested_zero] at hle
    refine ⟨hl, hi, ?_, ?_⟩
    · show update w.escrow.totalClaimed r _ r = vested w.escrow _ t'
      rw [update_self, hf, hl, vested_zero, ← hcl]
      omega
    · rw [hf]
      exact href

theorem Settled.claim {b : Bool} (h : Settled log w) (hx : w._claim r b = .ok w') :
    Settled (log ++ [⟨w.now, r, .claim b⟩]) w' := by
  obtain ⟨hall, hsol⟩ := h.solvent_claim hx
  have hself := (h.account r).claim hx
  obtain ⟨-, t, -, rfl⟩ := _claim_eq_ok hx
  refine ⟨h.self_ne, hall, times_append h.times rfl rfl, fun hi r' => ?_, fun r' => ?_, hsol⟩
  · obtain ⟨hf, hc⟩ := h.unfunded hi r'
    rw [funded_append, cancelledAt_append, hf, hc]
    exact ⟨rfl, rfl⟩
  · by_cases hr : r = r'
    · exact hr ▸ hself
    · refine (h.account r').apart ⟨rfl, rfl, ?_⟩ ⟨rfl, rfl, id, rfl, ?_, ?_, rfl⟩
      · simp [claims, hr]
      · exact update_of_ne (Ne.symm hr) _ _
      · exact received_claim_of_ne hr _ _ _

/-- A recipient with something locked has been funded and not cancelled. -/
theorem Settled.running_of_pos (h : Settled log w) (hpos : 0 < w.escrow.totalLocked r) :
    w.escrow.initialised = true ∧ cancelledAt r log = none := by
  constructor
  · by_contra hi
    have := h.totalLocked_of_unfunded (Bool.eq_false_iff.2 hi) r
    omega
  · cases hc : cancelledAt r log with
    | none => rfl
    | some t' =>
      have := ((h.account r).ended t' hc).1
      omega

/-- What a cancellation leaves in the account of the recipient. -/
theorem Account.cancel (h : Account log w r) (hinit : w.escrow.initialised = true)
    (hrun : cancelledAt r log = none) (hx : w.cancel sender r = .ok w') :
    Account (log ++ [⟨w.now, sender, .cancel r⟩]) w' r := by
  obtain ⟨-, w₁, t, h₁, -, rfl⟩ := cancel_eq_ok hx
  obtain ⟨hle, t₁, -, rfl⟩ := _claim_eq_ok h₁
  obtain ⟨hl, href, -⟩ := h.running hrun
  have hf : funded r (log ++ [⟨w.now, sender, .cancel r⟩]) = funded r log := by
    rw [funded_append]
    rfl
  have hcan : cancelledAt r (log ++ [⟨w.now, sender, .cancel r⟩]) = some w.now := by
    have hself : cancels r ⟨w.now, sender, .cancel r⟩ = true := by simp [cancels]
    rw [cancelledAt_append, hrun, hself]
    rfl
  refine ⟨?_, fun hc => ?_, fun t' ht' => ?_⟩
  · show Escrow.received r (.refund r _ :: .claim r _ false :: w.payments) =
      update w.escrow.totalClaimed r _ r
    rw [Escrow.received, received_claim_self, update_self, h.received]
    omega
  · rw [hcan] at hc
    exact nomatch hc
  · rw [hcan] at ht'
    cases ht'
    refine ⟨update_self r _ _, hinit, ?_, ?_⟩
    · show update w.escrow.totalClaimed r _ r = _
      rw [update_self, hf, hl]
      rfl
    · show refunded r (.refund r _ :: .claim r _ false :: w.payments) = _
      rw [refunded, if_pos rfl, refunded, href, hf, ← hl]
      rfl

/-- A cancellation pays what has vested, returns the rest and ends the grant. -/
theorem Settled.cancel (h : Settled log w) (hx : w.cancel sender r = .ok w') :
    Settled (log ++ [⟨w.now, sender, .cancel r⟩]) w' := by
  obtain ⟨hpos, w₁, t, h₁, ht, hw'⟩ := cancel_eq_ok hx
  obtain ⟨hinit, hrun⟩ := h.running_of_pos hpos
  have hself := (h.account r).cancel hinit hrun hx
  obtain ⟨hall, hsol⟩ := h.solvent_claim h₁
  obtain ⟨-, t₁, -, rfl⟩ := _claim_eq_ok h₁
  subst hw'
  refine ⟨h.self_ne, hall.transfer ht, times_append h.times rfl rfl, fun hi => ?_, fun r' => ?_, ?_⟩
  · exact absurd (hinit.symm.trans hi) (by simp)
  · by_cases hr : r = r'
    · exact hr ▸ hself
    · refine (h.account r').apart ⟨rfl, ?_, ?_⟩ ⟨rfl, rfl, id, ?_, ?_, ?_, ?_⟩
      · simp [cancels, hr]
      · simp [claims]
      · exact update_of_ne (Ne.symm hr) _ _
      · exact update_of_ne (Ne.symm hr) _ _
      · show received r' (.refund r _ :: .claim r _ false :: w.payments) = received r' w.payments
        rw [received, received_claim_of_ne hr]
      · show refunded r' (.refund r _ :: .claim r _ false :: w.payments) = refunded r' w.payments
        rw [refunded, if_neg hr, refunded, Nat.zero_add]
  · -- the rest leaves the escrow, and the grant with it
    have hbal := Erc20.le_transfer_add ht w.escrow.self
    have hsum := unclaimed_cancel w.escrow.totalLocked (update w.escrow.totalClaimed r
      (vested w.escrow (w.escrow.totalLocked r) w.now)) r
    rw [update_self] at hsum
    exact Nat.le_of_add_le_add_right (hsum.le.trans (hsol.trans hbal))

end Aura.Escrow
