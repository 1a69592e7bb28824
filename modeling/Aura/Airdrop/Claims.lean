import Aura.Airdrop.AuraMerkleDrop

/-!
# Airdrop : the claims

What each function does, and what the run says about the storage : who has claimed was paid
exactly once, for a pair that the root accepts, and penalties are either pending or
forwarded (`Recorded`).
-/

open Evm Function

namespace Aura.Airdrop

variable {keccak256 : Keccak} {w w' : World} {sender : Address} {c : Call}

abbrev Log := List (Event Address Call)

/-! ## What each function does -/

theorem sendToDao_eq_ok {amt : ℕ} (h : w.sendToDao amt = .ok w') : ∃ t,
    w.aura.transfer w.drop.self w.drop.dao amt = .ok t ∧
      w' = { w with aura := t, payments := .toDao amt :: w.payments } := by
  obtain ⟨t, ht, h⟩ := bind_eq_ok.1 h
  exact ⟨t, ht, (Except.ok.inj h).symm⟩

theorem withdrawExpired_eq_ok (h : w.withdrawExpired sender = .ok w') :
    w.drop.expiryTime < w.now ∧ w.drop.pendingPenalty ≤ w.aura.balanceOf w.drop.self ∧
      w.sendToDao (w.aura.balanceOf w.drop.self - w.drop.pendingPenalty) = .ok w' := by
  obtain ⟨-, h⟩ := require_bind_eq_ok.1 h
  obtain ⟨hexp, h⟩ := require_bind_eq_ok.1 h
  obtain ⟨amt, ha, h⟩ := bind_eq_ok.1 h
  obtain ⟨hle, rfl⟩ := usub_eq_ok.1 ha
  exact ⟨hexp, hle, h⟩

theorem rescueReward_eq_ok (h : w.rescueReward sender = .ok w') :
    w.now < w.drop.startTime ∧ w.sendToDao (w.aura.balanceOf w.drop.self) = .ok w' := by
  obtain ⟨-, h⟩ := require_bind_eq_ok.1 h
  obtain ⟨t, -, h⟩ := bind_eq_ok.1 h
  obtain ⟨hlt, h⟩ := require_bind_eq_ok.1 h
  rw [AuraMath.min_eq] at hlt
  exact ⟨hlt.trans_le (Nat.min_le_right _ _), h⟩

theorem penalty_le {n p : ℕ} (h : w.penalty n = .ok p) : p ≤ n := by
  unfold World.penalty at h
  split_ifs at h with hz
  · cases h
    exact Nat.zero_le _
  · obtain ⟨x, hx, h⟩ := bind_eq_ok.1 h
    cases h
    obtain ⟨-, rfl⟩ := umul_eq_ok.1 hx
    omega

/-- The payment of a claim. -/
theorem payOut_eq_ok {account : Address} {n : ℕ} {b : Bool} {r : Erc20 Address × ℕ × ℕ}
    (hall : w.aura.Unapproved w.drop.self) (h : w.payOut account n b = .ok r) :
    r.2.1 = w.drop.pendingPenalty + r.2.2 ∧ r.2.2 ≤ n ∧ r.1.Unapproved w.drop.self ∧
      r.1.balanceOf = move w.aura.balanceOf w.drop.self
        (if b then w.drop.auraLocker else account) (n - r.2.2) := by
  unfold World.payOut at h
  cases b with
  | true =>
    rw [if_pos rfl] at h ⊢
    obtain ⟨t₁, h₁, h⟩ := bind_eq_ok.1 h
    obtain ⟨t₂, h₂, h⟩ := bind_eq_ok.1 h
    obtain ⟨t₃, h₃, h⟩ := bind_eq_ok.1 h
    cases h
    have h₁ := Erc20.safeApprove_eq_ok h₁
    obtain ⟨-, hb, hall'⟩ := (hall.approve_zero h₁).approve_pull (Erc20.safeApprove_eq_ok h₂)
      (lockerPull_eq_ok h₃).2
    rw [(Erc20.approve_eq_ok h₁).1] at hb
    exact ⟨rfl, Nat.zero_le _, hall', hb⟩
  | false =>
    rw [if_neg Bool.false_ne_true] at h ⊢
    obtain ⟨p, hp, h⟩ := bind_eq_ok.1 h
    obtain ⟨q, hq, h⟩ := bind_eq_ok.1 h
    obtain ⟨x, hx, h⟩ := bind_eq_ok.1 h
    obtain ⟨t, ht, h⟩ := bind_eq_ok.1 h
    cases h
    obtain ⟨-, rfl⟩ := uadd_eq_ok.1 hq
    obtain ⟨-, rfl⟩ := usub_eq_ok.1 hx
    obtain ⟨-, -, -, hb, -, -⟩ := Erc20.transfer_eq_ok ht
    exact ⟨rfl, penalty_le hp, hall.transfer ht, hb⟩

/-- The penalty of a claim : none for a lock, which the locker has accepted. -/
theorem payOut_penalty {account : Address} {n : ℕ} {b : Bool} {r : Erc20 Address × ℕ × ℕ}
    (h : w.payOut account n b = .ok r) :
    if b then r.2.2 = 0 ∧ w.accepts w.drop.auraLocker account n = true
    else w.penalty n = .ok r.2.2 := by
  unfold World.payOut at h
  cases b with
  | true =>
    rw [if_pos rfl] at h ⊢
    obtain ⟨t₁, -, h⟩ := bind_eq_ok.1 h
    obtain ⟨t₂, -, h⟩ := bind_eq_ok.1 h
    obtain ⟨t₃, h₃, h⟩ := bind_eq_ok.1 h
    obtain ⟨⟨-, haccepts⟩, -⟩ := require_bind_eq_ok.1 h₃
    cases h
    exact ⟨rfl, haccepts⟩
  | false =>
    rw [if_neg Bool.false_ne_true] at h ⊢
    obtain ⟨p, hp, h⟩ := bind_eq_ok.1 h
    obtain ⟨q, -, h⟩ := bind_eq_ok.1 h
    obtain ⟨x, -, h⟩ := bind_eq_ok.1 h
    obtain ⟨t, -, h⟩ := bind_eq_ok.1 h
    cases h
    exact hp

/-- What a successful claim checks and writes. -/
theorem claim_eq_ok {proof : List ℕ} {n : ℕ} {b : Bool}
    (h : w.claim keccak256 sender proof n b = .ok w') :
    w.drop.merkleRoot ≠ 0 ∧ w.drop.startTime < w.now ∧ w.now < w.drop.expiryTime ∧
      w.drop.hasClaimed sender = false ∧
      keccak256.verify proof w.drop.merkleRoot (keccak256.leaf (sender, n)) = true ∧
      ∃ r, w.payOut sender n b = .ok r ∧
        w' = { w with
          aura := r.1
          drop := { w.drop with
            hasClaimed := update w.drop.hasClaimed sender true
            pendingPenalty := r.2.1 }
          payments := .claimed sender n r.2.2 b :: w.payments } := by
  obtain ⟨hroot, h⟩ := require_bind_eq_ok.1 h
  obtain ⟨hstart, h⟩ := require_bind_eq_ok.1 h
  obtain ⟨hexp, h⟩ := require_bind_eq_ok.1 h
  obtain ⟨-, h⟩ := require_bind_eq_ok.1 h
  obtain ⟨hnew, h⟩ := require_bind_eq_ok.1 h
  obtain ⟨hver, h⟩ := require_bind_eq_ok.1 h
  obtain ⟨r, hr, h⟩ := bind_eq_ok.1 h
  exact ⟨hroot, hstart, hexp, hnew, hver, r, hr, (Except.ok.inj h).symm⟩

/-- A claim of `n` by `account` was paid : the account is marked, and the amount less the
penalty moves, to the locker for a lock and else to the account. The penalty is kept for the
forwarder. -/
structure Claimed (w w' : World) (account : Address) (n : ℕ) (b : Bool) : Prop where
  new : w.drop.hasClaimed account = false
  marked : w'.drop.hasClaimed = update w.drop.hasClaimed account true
  paid : ∃ penalty ≤ n,
    (if b then penalty = 0 ∧ w.accepts w.drop.auraLocker account n = true
      else w.penalty n = .ok penalty) ∧
    w'.drop.pendingPenalty = w.drop.pendingPenalty + penalty ∧
    w'.aura.balanceOf = move w.aura.balanceOf w.drop.self
      (if b then w.drop.auraLocker else account) (n - penalty)

theorem claim_claimed {proof : List ℕ} {n : ℕ} {b : Bool} (hall : w.aura.Unapproved w.drop.self)
    (h : w.claim keccak256 sender proof n b = .ok w') : Claimed w w' sender n b := by
  obtain ⟨-, -, -, hnew, -, r, hr, rfl⟩ := claim_eq_ok h
  obtain ⟨hpen, hle, -, hb⟩ := payOut_eq_ok hall hr
  exact ⟨hnew, rfl, r.2.2, hle, payOut_penalty hr, hpen, hb⟩

theorem forwardPenalty_eq_ok (h : w.forwardPenalty = .ok w') : ∃ t,
    w.aura.transfer w.drop.self w.drop.penaltyForwarder w.drop.pendingPenalty = .ok t ∧
      w' = { w with
        aura := t
        drop := { w.drop with pendingPenalty := 0 }
        payments := .forwarded w.drop.pendingPenalty :: w.payments } := by
  obtain ⟨t, ht, h⟩ := bind_eq_ok.1 h
  exact ⟨t, ht, (Except.ok.inj h).symm⟩

/-! ## What a log and the payments say -/

/-- Whether a call is a claim. -/
def Call.isClaim : Call → Bool
  | .claim _ _ _ => true
  | _ => false

/-- The amounts that `a` has claimed. -/
def claimsOf (a : Address) : List Payment → List ℕ
  | [] => []
  | .claimed addr amt _ _ :: ps => if addr = a then amt :: claimsOf a ps else claimsOf a ps
  | _ :: ps => claimsOf a ps

/-- The penalties of all claims. -/
def penaltiesOf : List Payment → ℕ
  | [] => 0
  | .claimed _ _ penalty _ :: ps => penalty + penaltiesOf ps
  | _ :: ps => penaltiesOf ps

/-- The penalties that were forwarded. -/
def forwardedOf : List Payment → ℕ
  | [] => 0
  | .forwarded amount :: ps => amount + forwardedOf ps
  | _ :: ps => forwardedOf ps

/-- The root accepts the amount for the account. -/
def Accepted (keccak256 : Keccak) (d : AuraMerkleDrop) (a : Address) (n : ℕ) : Prop :=
  d.merkleRoot ≠ 0 ∧
    ∃ proof, keccak256.verify proof d.merkleRoot (keccak256.leaf (a, n)) = true

/-- Who has claimed was paid once, for an accepted amount. -/
structure Recorded (keccak256 : Keccak) (log : Log) (w : World) : Prop where
  unapproved : w.aura.Unapproved w.drop.self
  fresh : (∀ e ∈ log, e.call.isClaim = false) → ∀ a, w.drop.hasClaimed a = false
  started : (∃ e ∈ log, e.call.isClaim = true) → w.drop.startTime ≤ w.now
  unpaid : ∀ a, w.drop.hasClaimed a = false → claimsOf a w.payments = []
  paid : ∀ a, w.drop.hasClaimed a = true →
    ∃ n, claimsOf a w.payments = [n] ∧ Accepted keccak256 w.drop a n
  penalties : penaltiesOf w.payments = w.drop.pendingPenalty + forwardedOf w.payments

variable {log : Log}

/-- Before the first claim there is no penalty. -/
theorem Recorded.pendingPenalty (h : Recorded keccak256 log w)
    (hlog : ∀ e ∈ log, e.call.isClaim = false) : w.drop.pendingPenalty = 0 := by
  have hnone : ∀ ps : List Payment, (∀ a, claimsOf a ps = []) → penaltiesOf ps = 0 := by
    intro ps
    induction ps with
    | nil => exact fun _ => rfl
    | cons p ps ih =>
      intro hp
      cases p with
      | claimed addr amt q b =>
        have := hp addr
        rw [claimsOf, if_pos rfl] at this
        exact absurd this (List.cons_ne_nil _ _)
      | forwarded n => exact ih hp
      | toDao n => exact ih hp
  have h0 := hnone w.payments fun a => h.unpaid a (h.fresh hlog a)
  have := h.penalties
  omega

/-! ## Steps -/

theorem Recorded.deployed (h : Deployed w) : Recorded keccak256 [] w := by
  obtain ⟨d, root, a, l, p, s, x, hd⟩ := h.deploy
  obtain ⟨-, hd⟩ := require_bind_eq_ok.1 hd
  obtain ⟨-, hd⟩ := require_bind_eq_ok.1 hd
  obtain ⟨startTime, -, hd⟩ := bind_eq_ok.1 hd
  obtain ⟨-, hd⟩ := require_bind_eq_ok.1 hd
  obtain ⟨expiryTime, -, hd⟩ := bind_eq_ok.1 hd
  have he := Except.ok.inj hd
  have hc : ∀ a, w.drop.hasClaimed a = false := fun a => by rw [← he]
  have hp : w.drop.pendingPenalty = 0 := by rw [← he]
  refine ⟨h.unapproved, fun _ => hc, by simp, fun a _ => ?_, fun a ha => ?_, ?_⟩
  · rw [h.payments]
    rfl
  · rw [hc] at ha
    exact nomatch ha
  · rw [h.payments, hp]
    rfl

theorem Recorded.elsewhere (h : Recorded keccak256 log w) (he : Elsewhere w w') :
    Recorded keccak256 log w' := by
  constructor
  · rw [he.drop]
    exact he.aura.unapproved h.unapproved
  · rw [he.drop]
    exact h.fresh
  · rw [he.drop]
    exact fun hl => (h.started hl).trans he.now
  · rw [he.drop, he.payments]
    exact h.unpaid
  · rw [he.drop, he.payments]
    exact h.paid
  · rw [he.drop, he.payments]
    exact h.penalties

/-- A call that is no claim, keeps who has claimed and a root that is set, and pays no account
of the tree. -/
theorem Recorded.other {e : Event Address Call} (h : Recorded keccak256 log w)
    (he : e.call.isClaim = false) (hall : w'.aura.Unapproved w'.drop.self)
    (hclaimed : w'.drop.hasClaimed = w.drop.hasClaimed)
    (hroot : w.drop.merkleRoot ≠ 0 → w'.drop.merkleRoot = w.drop.merkleRoot)
    (hstart : w.drop.startTime ≤ w.now → w'.drop.startTime ≤ w'.now)
    (hpay : ∀ a, claimsOf a w'.payments = claimsOf a w.payments)
    (hpen : penaltiesOf w'.payments = w'.drop.pendingPenalty + forwardedOf w'.payments) :
    Recorded keccak256 (log ++ [e]) w' := by
  refine ⟨hall, fun hl => ?_, fun ⟨d, hd, hc⟩ => hstart (h.started ⟨d, ?_, hc⟩), fun a => ?_,
    fun a => ?_, hpen⟩
  · rw [hclaimed]
    exact h.fresh fun d hd => hl d (List.mem_append_left _ hd)
  · rcases List.mem_append.1 hd with hd | hd
    · exact hd
    · rw [List.mem_singleton.1 hd, he] at hc
      exact nomatch hc
  · rw [hclaimed, hpay]
    exact h.unpaid a
  · rw [hclaimed, hpay]
    intro ha
    obtain ⟨n, hn, hr, hacc⟩ := h.paid a ha
    exact ⟨n, hn, by rw [hroot hr]; exact hr, by rw [hroot hr]; exact hacc⟩

theorem Recorded.claim {proof : List ℕ} {n : ℕ} {b : Bool} (h : Recorded keccak256 log w)
    (hx : w.claim keccak256 sender proof n b = .ok w') :
    Recorded keccak256 (log ++ [⟨w.now, sender, .claim proof n b⟩]) w' := by
  obtain ⟨hroot, hstart, -, hnew, hver, r, hr, rfl⟩ := claim_eq_ok hx
  obtain ⟨hpen, -, hall, -⟩ := payOut_eq_ok h.unapproved hr
  refine ⟨hall, fun hl => ?_, fun _ => hstart.le, fun a ha => ?_, fun a ha => ?_, ?_⟩
  · exact absurd (hl _ (List.mem_append_right _ (List.mem_singleton_self _))) Bool.noConfusion
  · by_cases hs : sender = a
    · subst hs
      have hself : update w.drop.hasClaimed sender true sender = true := update_self _ _ _
      exact nomatch hself.symm.trans ha
    · have ha' := (update_of_ne (Ne.symm hs) true w.drop.hasClaimed).symm.trans ha
      show claimsOf a (.claimed sender n r.2.2 b :: w.payments) = []
      rw [claimsOf, if_neg hs]
      exact h.unpaid a ha'
  · show ∃ m, claimsOf a (.claimed sender n r.2.2 b :: w.payments) = [m] ∧ _
    rw [claimsOf]
    by_cases hs : sender = a
    · subst hs
      rw [if_pos rfl, h.unpaid sender hnew]
      exact ⟨n, rfl, hroot, proof, hver⟩
    · have ha' := (update_of_ne (Ne.symm hs) true w.drop.hasClaimed).symm.trans ha
      rw [if_neg hs]
      exact h.paid a ha'
  · show r.2.2 + penaltiesOf w.payments = r.2.1 + forwardedOf w.payments
    have := h.penalties
    omega

theorem Recorded.step (h : Recorded keccak256 log w) (hx : exec keccak256 w sender c = .ok w') :
    Recorded keccak256 (log ++ [⟨w.now, sender, c⟩]) w' := by
  cases c with
  | setDao a =>
    obtain ⟨-, hx⟩ := require_bind_eq_ok.1 hx
    cases hx
    exact h.other rfl h.unapproved rfl (fun _ => rfl) id (fun _ => rfl) h.penalties
  | setRoot x =>
    obtain ⟨-, hx⟩ := require_bind_eq_ok.1 hx
    obtain ⟨hr, hx⟩ := require_bind_eq_ok.1 hx
    cases hx
    exact h.other rfl h.unapproved rfl (fun hne => absurd hr hne) id (fun _ => rfl) h.penalties
  | startEarly =>
    obtain ⟨-, hx⟩ := require_bind_eq_ok.1 hx
    cases hx
    exact h.other rfl h.unapproved rfl (fun _ => rfl) (fun _ => le_rfl) (fun _ => rfl) h.penalties
  | withdrawExpired =>
    obtain ⟨-, -, hx⟩ := withdrawExpired_eq_ok hx
    obtain ⟨t, ht, rfl⟩ := sendToDao_eq_ok hx
    exact h.other rfl (h.unapproved.transfer ht) rfl (fun _ => rfl) id (fun _ => rfl) h.penalties
  | setLocker a =>
    obtain ⟨-, hx⟩ := require_bind_eq_ok.1 hx
    cases hx
    exact h.other rfl h.unapproved rfl (fun _ => rfl) id (fun _ => rfl) h.penalties
  | rescueReward =>
    obtain ⟨-, hx⟩ := rescueReward_eq_ok hx
    obtain ⟨t, ht, rfl⟩ := sendToDao_eq_ok hx
    exact h.other rfl (h.unapproved.transfer ht) rfl (fun _ => rfl) id (fun _ => rfl) h.penalties
  | claim proof n b => exact h.claim hx
  | forwardPenalty =>
    obtain ⟨t, ht, rfl⟩ := forwardPenalty_eq_ok hx
    refine h.other rfl (h.unapproved.transfer ht) rfl (fun _ => rfl) id (fun _ => rfl) ?_
    show penaltiesOf w.payments = 0 + (w.drop.pendingPenalty + forwardedOf w.payments)
    rw [h.penalties, Nat.zero_add]

/-- Every reachable state is recorded. -/
theorem Recorded.of_reachable (h : (system keccak256).Reachable log w) :
    Recorded keccak256 log w :=
  h.induct (fun _ => Recorded.deployed) (fun _ _ _ => Recorded.elsewhere)
    fun _ _ _ _ _ h _ hx => h.step hx

end Aura.Airdrop
