import Aura.Locker.Custody
import Aura.Locker.Streams

/-!
# AuraLocker : claimable rewards

`claimableRewards` extrapolates what `getReward` computes in steps. Neither distributing
what was streamed nor settling an account changes what anybody can claim
(`updateReward_earned`), and after `updateReward` the credit of the account is its whole
claim (`credit_eq`), so the loop of `getReward` pays what was listed (`exists_pays`).

A token can be listed twice, if it is registered at a time that is zero in 32 bits. Nothing
is ever streamed of such a token (`Fresh`), so both entries are zero.

The zero account is an exception once more : `updateReward` skips it, so it is not paid what
is listed for it (`claimableRewards_zero`).
-/

open Evm Function Finset

namespace Aura.Locker

open AuraMath

variable {now n funds : ℕ} {s s' : Storage} {a u token : Address} {w w' : World} {sender : Address}

/-! ## Tokens that are registered twice -/

/-- Nothing was ever streamed of the token. -/
structure Blank (s : Storage) (token : Address) : Prop where
  rate : (s.rewards.rewardData token).rewardRate = 0
  stored : (s.rewards.rewardData token).rewardPerTokenStored = 0
  userData : ∀ u, s.rewards.userData u token = ⟨0, 0⟩

theorem Blank.congr (h : Blank s token)
    (hd : s'.rewards.rewardData token = s.rewards.rewardData token)
    (hu : ∀ u, s'.rewards.userData u token = s.rewards.userData u token) : Blank s' token :=
  ⟨by rw [hd]; exact h.rate, by rw [hd]; exact h.stored, fun u => by rw [hu]; exact h.userData u⟩

/-- Nothing of it can be claimed. -/
theorem Blank.accrued (h : Blank s token) (now : ℕ) (u : Address) :
    (accrued s now token).index = 0 ∧ (Locker.accrued s now token).earned precision u = 0 := by
  have hi : (Locker.accrued s now token).index = 0 := by
    show RewardData.rewardPerTokenStored _ + streamed _ now / _ = 0
    rw [h.stored, streamed, h.rate, Nat.mul_zero, Nat.zero_mul, Nat.zero_div]
  refine ⟨hi, ?_⟩
  have hc : (Locker.accrued s now token).credit u = 0 := by
    show (s.rewards.userData u token).rewards = 0
    rw [h.userData]
  rw [Accumulator.earned, Accumulator.pending, hi, hc, Nat.zero_sub, Nat.mul_zero, Nat.zero_div]

theorem Blank.accrue (h : Blank s token) (now : ℕ) (a other : Address) :
    Blank (accrue s now a other) token := by
  by_cases hne : token = other
  swap
  · obtain ⟨hd, hu⟩ := accrue_of_ne s now a hne
    exact h.congr hd hu
  subst hne
  obtain ⟨hi, he⟩ := h.accrued now a
  refine ⟨?_, ?_, fun u => ?_⟩
  · rw [accrue_rewardData]
    exact h.rate
  · rw [accrue_rewardData]
    exact hi
  · rw [accrue_userData, hi, he, h.userData, ite_self]

theorem Blank.clear (h : Blank s token) (a other : Address) :
    Blank (clearRewards s a other) token := by
  refine ⟨h.rate, h.stored, fun u => ?_⟩
  by_cases hu : u = a
  · subst hu
    by_cases hne : token = other
    · subst hne
      simp [clearRewards, setUserData, h.userData]
    · simp [clearRewards, setUserData, hne, h.userData]
  · simp [clearRewards, setUserData, hu, h.userData]

/-- A token is registered only before its first period, so a token that is registered twice
stays blank. Both can be only if its first registration was at a time that is zero in 32
bits. -/
structure Fresh (token : Address) (now : ℕ) (s : Storage) : Prop where
  updated : (s.rewards.rewardData token).lastUpdateTime = 0 →
    (s.rewards.rewardData token).periodFinish = 0
  unstarted : (s.rewards.rewardData token).periodFinish = 0 →
    Blank s token ∧ (token ∈ s.rewards.rewardTokens → 2 ^ 32 ≤ now)
  twice : 2 ≤ s.rewards.rewardTokens.count token → Blank s token ∧ 2 ^ 32 ≤ now

theorem Fresh.congr (h : Fresh token now s)
    (ht : s'.rewards.rewardTokens.count token = s.rewards.rewardTokens.count token)
    (hd : s'.rewards.rewardData token = s.rewards.rewardData token)
    (hb : Blank s token → Blank s' token) : Fresh token now s' := by
  have hm : token ∈ s'.rewards.rewardTokens ↔ token ∈ s.rewards.rewardTokens := by
    rw [← List.count_pos_iff, ht, List.count_pos_iff]
  refine ⟨?_, ?_, ?_⟩
  · rw [hd]
    exact h.updated
  · rw [hd, hm]
    exact fun hz => (h.unstarted hz).imp_left hb
  · rw [ht]
    exact fun hz => (h.twice hz).imp_left hb

theorem Fresh.accrue (h : Fresh token now s) (hnow : 0 < now) (a other : Address) :
    Fresh token now (accrue s now a other) := by
  have hfin := (accrue_schedule s now a other token).2
  have ht : (Locker.accrue s now a other).rewards.rewardTokens = s.rewards.rewardTokens :=
    (accrue_accrued s now a other).rewardTokens
  refine ⟨fun hz => ?_, ?_, ?_⟩
  · rw [hfin]
    by_cases hne : token = other
    · subst hne
      rw [accrue_rewardData] at hz
      by_contra hpos
      have hle := le_applicable hnow (Nat.pos_of_ne_zero hpos)
      exact absurd hz (Nat.pos_iff_ne_zero.1 hle)
    · rw [(accrue_of_ne s now a hne).1] at hz
      exact h.updated hz
  · rw [hfin, ht]
    exact fun hz => (h.unstarted hz).imp_left fun hb => hb.accrue now a other
  · rw [ht]
    exact fun hz => (h.twice hz).imp_left fun hb => hb.accrue now a other

theorem Fresh.updateReward (h : Fresh token now s) (hnow : 0 < now)
    (hx : updateReward s now a = .ok s') : Fresh token now s' := by
  refine foldlM_keeps (Fresh token now) (fun other _ s₁ s₂ hs₁ hs₂ => ?_) h hx
  obtain ⟨rfl, -⟩ := updateRewardToken_eq_ok hs₂
  exact hs₁.accrue hnow a other

theorem Fresh.notify {other : Address} (h : Fresh token now s) (hnow : 0 < now)
    (hx : _notifyReward s now other n = .ok s') : Fresh token now s' := by
  obtain ⟨s₀, rate, h₀, -, -, -, hlt, rfl⟩ := notifyReward_eq_ok hx
  have hf := h.updateReward hnow h₀
  by_cases hne : token = other
  swap
  · exact hf.congr rfl (update_of_ne hne _ _) fun hb => hb.congr (update_of_ne hne _ _) fun _ => rfl
  subst hne
  have hd : (setRewardData s₀ token
      (newPeriod (s₀.rewards.rewardData token) now rate)).rewards.rewardData token =
        newPeriod (s₀.rewards.rewardData token) now rate := update_self _ _ _
  refine ⟨fun hz => ?_, fun hz => ?_, fun hc => ?_⟩
  · rw [hd] at hz
    exact absurd hz hnow.ne'
  · rw [hd] at hz
    exact absurd hz (Nat.add_pos_left hnow _).ne'
  · -- no period starts that late
    have := (hf.twice hc).2
    omega

theorem Fresh.queue {other : Address} (h : Fresh token now s) (hnow : 0 < now)
    (hx : queueRewards s now other n = .ok s') : Fresh token now s' := by
  obtain ⟨-, ⟨s₁, h₁, rfl⟩ | ⟨-, rfl⟩⟩ := queueRewards_eq_ok hx
  · exact (h.notify hnow h₁).congr rfl rfl fun hb => hb.congr rfl fun _ => rfl
  · exact h.congr rfl rfl fun hb => hb.congr rfl fun _ => rfl

theorem Fresh.add {other dist : Address} (h : Fresh token now s) (hnow : 0 < now)
    (hx : addReward s now sender other dist = .ok s') : Fresh token now s' := by
  obtain ⟨hz, -, -, rfl⟩ := addReward_eq_ok hx
  by_cases hne : token = other
  swap
  · refine h.congr ?_ (update_of_ne hne _ _) fun hb => hb.congr (update_of_ne hne _ _) fun _ => rfl
    show (s.rewards.rewardTokens ++ [other]).count token = _
    rw [List.count_append, List.count_singleton, beq_false_of_ne (Ne.symm hne)]
    rfl
  subst hne
  obtain ⟨hb, hlate⟩ := h.unstarted (h.updated hz)
  set s' : Storage := { s with rewards := setDistributor { s.rewards with
    rewardTokens := s.rewards.rewardTokens ++ [token]
    rewardData := update s.rewards.rewardData token
      { s.rewards.rewardData token with
        lastUpdateTime := trunc 32 now, periodFinish := trunc 32 now } } token dist true }
  have hd : s'.rewards.rewardData token = { s.rewards.rewardData token with
      lastUpdateTime := trunc 32 now, periodFinish := trunc 32 now } := update_self _ _ _
  have hb' : Blank s' token := by
    refine ⟨?_, ?_, hb.userData⟩
    · rw [hd]
      exact hb.rate
    · rw [hd]
      exact hb.stored
  have hcount : s'.rewards.rewardTokens.count token = s.rewards.rewardTokens.count token + 1 := by
    show (s.rewards.rewardTokens ++ [token]).count token = _
    rw [List.count_append, List.count_singleton, beq_self_eq_true]
    rfl
  refine ⟨fun hz => ?_, fun hz => ⟨hb', fun _ => ?_⟩, fun hc => ⟨hb', hlate ?_⟩⟩
  · rw [hd] at hz ⊢
    exact hz
  · rw [hd] at hz
    exact Nat.le_of_dvd hnow (Nat.dvd_of_mod_eq_zero hz)
  · rw [hcount] at hc
    exact List.count_pos_iff.1 (by omega)

theorem rewardInductive_fresh (token : Address) : RewardInductive (Fresh token) where
  time h hn :=
    ⟨h.updated, fun hz => (h.unstarted hz).imp_right fun hm hmem => (hm hmem).trans hn,
      fun hc => (h.twice hc).imp_right fun hm => hm.trans hn⟩
  change := by
    intro now s s' hnow h hch
    cases hch with
    | other ht hd hu =>
      exact h.congr (by rw [ht]) (by rw [hd]) fun hb =>
        hb.congr (by rw [hd]) (by rw [hu]; exact fun _ => rfl)
    | accrue a other hs => exact hs ▸ h.accrue hnow a other
    | clear a other hs => exact hs ▸ h.congr rfl rfl fun hb => hb.clear a other
    | queue _ hx => exact h.queue hnow hx
    | add hx => exact h.add hnow hx

theorem Reachable.fresh {log : List Event} (h : Reachable log w) (token : Address) :
    Fresh token w.now w.locker := by
  obtain ⟨w₀, h₀, hs⟩ := h
  refine (rewardInductive_fresh token).steps ⟨w₀, h₀, .refl⟩ ?_ hs
  rw [h₀.locker]
  exact ⟨fun _ => rfl, fun _ => ⟨⟨rfl, rfl, fun _ => rfl⟩, by simp [deploy]⟩, by simp [deploy]⟩

/-! ## What `getReward` pays -/

/-- The claim of a settled account is its credit, when nothing is left to distribute. -/
theorem Settled.earned_eq (h : Settled s a token)
    (hz : streamed (s.rewards.rewardData token) now = 0) :
    (accrued s now token).earned precision a = (s.rewards.userData a token).rewards := by
  have hi : (accrued s now token).index = (s.rewards.rewardData token).rewardPerTokenStored := by
    show _ + streamed _ now / _ = _
    rw [hz, Nat.zero_div, Nat.add_zero]
    rfl
  rw [Accumulator.earned, Accumulator.pending, hi]
  show _ * (_ - (s.rewards.userData a token).rewardPerTokenPaid) / _ + _ = _
  rw [Nat.sub_eq_zero_of_le h, Nat.mul_zero, Nat.zero_div, Nat.zero_add]
  rfl

/-- After `updateReward` the credit of the account is what it could claim before. -/
theorem credit_eq (ha : a ≠ 0) (hx : updateReward s now a = .ok s')
    (hm : token ∈ s.rewards.rewardTokens) :
    (s'.rewards.userData a token).rewards = (accrued s now token).earned precision a := by
  rw [← updateReward_earned hx token a]
  exact ((updateReward_settled ha hx token hm).earned_eq (updateReward_streamed hx hm)).symm

/-- A credit is covered by the funds. -/
theorem Funded.credit_le (h : Funded now s token funds) (ha : a ≠ 0) :
    (s.rewards.userData a token).rewards ≤ funds := by
  have hpay := Accumulator.owed_pay (a := accumulator s token) (u := a) precision (mem_users.2 ha)
  have hcov := h.covered
  unfold obligations at hcov
  dsimp only at hcov
  rw [← hpay] at hcov
  refine Nat.le_of_mul_le_mul_right (Nat.le_trans ?_ hcov) precision_pos
  show (accumulator s token).credit a * precision ≤ _
  omega

/-- A round of `getReward` pays the credit. -/
theorem Solvent.exists_payReward (sender : Address) (h : Solvent w)
    (hself : w.locker.config.self ≠ 0) (ha : a ≠ 0)
    (hm : token ∈ w.locker.rewards.rewardTokens) :
    ∃ w', Locker.payReward w sender a false token = .ok w' ∧
      ({ w with locker := clearRewards w.locker a token } : World).Moved w' token
        w.locker.config.self a (w.locker.rewards.userData a token).rewards := by
  have hne : token ≠ w.locker.config.stakingToken := fun he => h.notReward (he ▸ hm)
  unfold Locker.payReward
  dsimp only
  split_ifs with hr hs
  · exact absurd hs.2.1 (by decide)
  · obtain ⟨t, ht⟩ := (w.tokens token).exists_transfer hself ha ((h.funded token hne).credit_le ha)
    have hx : ({ w with locker := clearRewards w.locker a token } : World).safeTransfer token a
        (w.locker.rewards.userData a token).rewards =
          .ok { w with
            locker := clearRewards w.locker a token, tokens := update w.tokens token t } := by
      unfold World.safeTransfer
      dsimp only
      rw [show (clearRewards w.locker a token).config = w.locker.config from rfl, ht, ok_bind]
    exact ⟨_, hx, World.safeTransfer_eq_ok hx⟩
  · have hz : (w.locker.rewards.userData a token).rewards = 0 := Nat.eq_zero_of_not_pos hr
    have hclear : clearRewards w.locker a token = w.locker := by
      have hd : { w.locker.rewards.userData a token with rewards := 0 } =
          w.locker.rewards.userData a token := by rw [← hz]
      unfold clearRewards setUserData
      rw [hd, update_eq_self, update_eq_self]
    refine ⟨w, rfl, ?_⟩
    rw [hclear, hz]
    refine ⟨rfl, rfl, Nat.zero_le _, fun k => ?_⟩
    rw [move_zero]
    split_ifs with hk
    · rw [hk]
    · rfl

/-- `w'` is `w` after the credits of `a` in `tokens` were paid. -/
structure Pays (w w' : World) (a : Address) (tokens : List Address) : Prop where
  now : w'.now = w.now
  ledger : w'.locker.ledger = w.locker.ledger
  config : w'.locker.config = w.locker.config
  rewardTokens : w'.locker.rewards.rewardTokens = w.locker.rewards.rewardTokens
  rewardData : w'.locker.rewards.rewardData = w.locker.rewards.rewardData
  userData : ∀ u t, w'.locker.rewards.userData u t = if u = a ∧ t ∈ tokens then
    { w.locker.rewards.userData u t with rewards := 0 } else w.locker.rewards.userData u t
  balance : ∀ t, w'.balance t = if t ∈ tokens then
    move (w.balance t) w.locker.config.self a (w.locker.rewards.userData a t).rewards
    else w.balance t

/-- The loop of `getReward` pays the credits in any registered tokens. -/
theorem Solvent.exists_pays (sender : Address) (ha : a ≠ 0) :
    ∀ {tokens : List Address} {w : World}, Solvent w → w.locker.config.self ≠ 0 →
    (∀ t ∈ tokens, t ∈ w.locker.rewards.rewardTokens) →
    ∃ w', tokens.foldlM (fun w token => Locker.payReward w sender a false token) w = .ok w' ∧
      Solvent w' ∧ Pays w w' a tokens
  | [], w, h, _, _ => ⟨w, rfl, h, rfl, rfl, rfl, rfl, rfl, fun _ _ => by simp, fun _ => by simp⟩
  | token :: tokens, w, h, hself, hm => by
    have htoken := hm token (by simp)
    obtain ⟨w₁, hw₁, hmv⟩ := h.exists_payReward sender hself ha htoken
    have hl := hmv.locker
    have hu₁ : ∀ u t, w₁.locker.rewards.userData u t = if u = a ∧ t = token then
        { w.locker.rewards.userData u t with rewards := 0 } else
          w.locker.rewards.userData u t := by
      intro u t
      rw [hl]
      by_cases hu : u = a
      · subst hu
        by_cases ht : t = token
        · subst ht
          simp [clearRewards, setUserData]
        · simp [clearRewards, setUserData, ht]
      · simp [clearRewards, setUserData, hu]
    have hm₁ : ∀ t ∈ tokens, t ∈ w₁.locker.rewards.rewardTokens := by
      intro t ht
      rw [hl]
      exact hm t (by simp [ht])
    obtain ⟨w', hw', hs', hp⟩ := Solvent.exists_pays sender ha (h.payReward htoken hw₁)
      (by rw [hl]; exact hself) hm₁
    refine ⟨w', by rw [List.foldlM_cons, hw₁, ok_bind, hw'], hs', ?_⟩
    refine ⟨hp.now.trans hmv.now, by rw [hp.ledger, hl]; rfl, by rw [hp.config, hl]; rfl,
      by rw [hp.rewardTokens, hl]; rfl, by rw [hp.rewardData, hl]; rfl, fun u t => ?_, fun t => ?_⟩
    · rw [hp.userData, hu₁]
      by_cases hu : u = a
      · by_cases ht : t = token
        · simp [hu, ht]
        · simp [hu, ht]
      · simp [hu]
    · rw [hp.balance, hmv.balance, hu₁, hl]
      by_cases ht : t = token
      · subst ht
        -- a second payment is zero
        simp only [and_self, if_true, List.mem_cons, true_or, move_zero, ite_self]
        rfl
      · simp only [ht, and_false, if_false, List.mem_cons, false_or]
        rfl

/-- The entries that are not skipped. -/
def unskipped (tokens : List Address) (_skipIdx : List Bool) : List Address :=
  ((tokens.zip _skipIdx).filter fun p => !p.2).map Prod.fst

theorem mem_unskipped {tokens : List Address} {_skipIdx : List Bool} :
    token ∈ unskipped tokens _skipIdx ↔ (token, false) ∈ tokens.zip _skipIdx := by
  simp [unskipped]

/-- Skipping is not paying. -/
theorem foldlM_skip (sender a : Address) : ∀ (ps : List (Address × Bool)) (w : World),
    ps.foldlM (fun w p => if p.2 then .ok w else payReward w sender a false p.1) w =
      ((ps.filter fun p => !p.2).map Prod.fst).foldlM
        (fun w token => payReward w sender a false token) w
  | [], _ => rfl
  | (token, true) :: ps, w => by
    rw [List.foldlM_cons, if_pos rfl, ok_bind, foldlM_skip sender a ps w]
    rfl
  | (token, false) :: ps, w => by
    have hf : ((token, false) :: ps).filter (fun p => !p.2) =
      (token, false) :: ps.filter fun p => !p.2 := rfl
    rw [hf, List.map_cons, List.foldlM_cons, List.foldlM_cons, if_neg Bool.false_ne_true]
    cases payReward w sender a false token with
    | ok w₁ => exact foldlM_skip sender a ps w₁
    | error e => rfl

/-- `getReward` to the account is `getReward` that skips nothing. -/
theorem getReward_eq_skip (w : World) (sender a : Address) :
    getReward w sender a false =
      getRewardSkip w sender a (List.replicate w.locker.rewards.rewardTokens.length false) := by
  unfold getReward getRewardSkip
  cases hs : updateReward w.locker w.now a with
  | error e => rfl
  | ok s =>
    have ht := (updateReward_accrued hs).rewardTokens
    have hall : ∀ tokens : List Address,
        unskipped tokens (List.replicate tokens.length false) = tokens := by
      intro tokens
      induction tokens with
      | nil => rfl
      | cons t tokens ih => exact congrArg (t :: ·) ih
    rw [ok_bind, ok_bind, ← ht, require_of List.length_replicate, ok_bind, foldlM_skip,
      ← unskipped, hall]

/-! ## The view and the payment -/

/-- What `getReward` does with the listed `rewards`, each with whether it is skipped. -/
structure Collected (w w' : World) (u : Address) (rewards : List (EarnedData × Bool)) : Prop where
  paid : ∀ p ∈ rewards, p.2 = false → w'.balance p.1.token =
    move (w.balance p.1.token) w.locker.config.self u p.1.amount
  /-- Nothing else moves. -/
  unpaid : ∀ token, (∀ p ∈ rewards, p.2 = false → p.1.token ≠ token) →
    w'.balance token = w.balance token
  claimable : claimableRewards w'.locker w'.now u =
    .ok (rewards.map fun p => if p.2 then p.1 else ⟨p.1.token, 0⟩)
  others : ∀ v, v ≠ u → claimableRewards w'.locker w'.now v = claimableRewards w.locker w.now v

/-- The entry of `claimableRewards`. -/
def entry (s : Storage) (now : ℕ) (u token : Address) : EarnedData :=
  ⟨token, (accrued s now token).earned precision u⟩

/-- `claimableRewards` returns. -/
theorem Solvent.claimableRewards_eq (h : Solvent w) (hsup : Sums w.now w.locker) (hu : u ≠ 0) :
    claimableRewards w.locker w.now u =
      .ok (w.locker.rewards.rewardTokens.map (entry w.locker w.now u)) := by
  refine mapM_of fun token hm => ?_
  have hne : token ≠ w.locker.config.stakingToken := fun he => h.notReward (he ▸ hm)
  rw [(h.funded token hne).earned_eq hsup.users_le hu, ok_bind]
  rfl

/-- A position that is skipped and one that is not are two positions. -/
theorem two_le_count : ∀ {tokens : List Address} {_skipIdx : List Bool},
    (token, true) ∈ tokens.zip _skipIdx → (token, false) ∈ tokens.zip _skipIdx →
      2 ≤ tokens.count token
  | t :: tokens, b :: _skipIdx, htrue, hfalse => by
    rw [List.zip_cons_cons, List.mem_cons] at htrue hfalse
    have hone : ∀ {c : Bool}, (token, c) ∈ tokens.zip _skipIdx → 1 ≤ tokens.count token :=
      fun hm => List.count_pos_iff.2 (List.of_mem_zip hm).1
    rcases htrue with htrue | htrue
    · rcases hfalse with hfalse | hfalse
      · rw [← htrue] at hfalse
        cases hfalse
      · cases htrue
        rw [List.count_cons_self]
        exact Nat.succ_le_succ (hone hfalse)
    · rcases hfalse with hfalse | hfalse
      · cases hfalse
        rw [List.count_cons_self]
        exact Nat.succ_le_succ (hone htrue)
      · exact (two_le_count htrue hfalse).trans (List.count_le_count_cons)

/-- After the payment, what is claimable is the credit that is left. -/
theorem Pays.earned_eq {s : Storage} {tokens : List Address}
    (hp : Pays { w with locker := s } w' u tokens) (hu : u ≠ 0)
    (hx : updateReward w.locker w.now u = .ok s) (ht : token ∈ w.locker.rewards.rewardTokens) :
    (accrued w'.locker w'.now token).earned precision u =
      (w'.locker.rewards.userData u token).rewards := by
  have hset : Settled w'.locker u token := by
    have := updateReward_settled hu hx token ht
    rw [Settled, hp.rewardData, hp.userData]
    split_ifs <;> exact this
  refine hset.earned_eq ?_
  rw [hp.rewardData, hp.now]
  exact updateReward_streamed hx ht

/-- The payment leaves the claims of all others alone. -/
theorem Pays.claimableRewards_of_ne {s : Storage} {tokens : List Address} {v : Address}
    (hp : Pays { w with locker := s } w' u tokens) (h : Solvent w) (hsup : Sums w.now w.locker)
    (hx : updateReward w.locker w.now u = .ok s) (hv : v ≠ u) :
    claimableRewards w'.locker w'.now v = claimableRewards w.locker w.now v := by
  have hacc := updateReward_accrued hx
  have hnow : w'.now = w.now := hp.now
  have hledger : w'.locker.ledger = w.locker.ledger := hp.ledger.trans hacc.ledger
  unfold claimableRewards
  rw [hp.rewardTokens.trans hacc.rewardTokens]
  congr 1
  funext t
  have hrpt : _rewardPerToken w'.locker w'.now t = _rewardPerToken w.locker w.now t := by
    rw [hnow, rewardPerToken_congr (s := s) (by rw [hp.rewardData]) hp.ledger]
    by_cases ht : t ∈ w.locker.rewards.rewardTokens
    · have hne : t ≠ w.locker.config.stakingToken := fun he => h.notReward (he ▸ ht)
      exact (h.funded t hne).updateReward_rewardPerToken h.now_pos hsup.users_le hx
    · exact rewardPerToken_congr (updateReward_of_notMem ht hx) hacc.ledger
  have hdata : w'.locker.rewards.userData v t = w.locker.rewards.userData v t := by
    rw [hp.userData, if_neg fun hc => hv hc.1]
    exact updateReward_userData hx (fun _ => hv) t
  rw [hnow] at hrpt ⊢
  rw [hledger, earned_congr hrpt hdata]

/-- After the payment a skipped entry is listed as before, and one that is paid with nothing. -/
theorem Pays.entry_eq {s : Storage} {_skipIdx : List Bool} {t : Address} {b : Bool}
    (hp : Pays { w with locker := s } w' u (unskipped w.locker.rewards.rewardTokens _skipIdx))
    (hfresh : ∀ token, Fresh token w.now w.locker) (hu : u ≠ 0)
    (hx : updateReward w.locker w.now u = .ok s)
    (hq : (t, b) ∈ w.locker.rewards.rewardTokens.zip _skipIdx) :
    entry w'.locker w'.now u t = if b then entry w.locker w.now u t else ⟨t, 0⟩ := by
  have ht := (List.of_mem_zip hq).1
  have hdata := hp.userData u t
  -- what is claimable is the credit that is left
  rw [entry, hp.earned_eq hu hx ht, hdata]
  cases b with
  | false =>
    rw [if_pos ⟨rfl, mem_unskipped.2 hq⟩]
    rfl
  | true =>
    by_cases hpaid : (t, false) ∈ w.locker.rewards.rewardTokens.zip _skipIdx
    · -- listed twice, so nothing was ever streamed of it
      have hzero := (((hfresh t).twice (two_le_count hq hpaid)).1.accrued w.now u).2
      rw [if_pos ⟨rfl, mem_unskipped.2 hpaid⟩, entry, hzero]
      rfl
    · rw [if_neg fun hc => hpaid (mem_unskipped.1 hc.2)]
      exact congrArg (EarnedData.mk t) (credit_eq hu hx ht)

/-- What paying the unskipped entries does, after the rewards of the account accrued. -/
theorem Solvent.collected {s : Storage} {_skipIdx : List Bool} (h : Solvent w)
    (hsup : Sums w.now w.locker) (hfresh : ∀ token, Fresh token w.now w.locker) (hu : u ≠ 0)
    (hlen : _skipIdx.length = w.locker.rewards.rewardTokens.length)
    (hx : updateReward w.locker w.now u = .ok s)
    (hp : Pays { w with locker := s } w' u (unskipped w.locker.rewards.rewardTokens _skipIdx))
    (hs' : Solvent w') :
    Collected w w' u
      ((w.locker.rewards.rewardTokens.map (entry w.locker w.now u)).zip _skipIdx) := by
  set tokens := w.locker.rewards.rewardTokens with htokens
  have hacc := updateReward_accrued hx
  have htw : w'.locker.rewards.rewardTokens = tokens := hp.rewardTokens.trans hacc.rewardTokens
  have hnow : w'.now = w.now := hp.now
  have hledger : w'.locker.ledger = w.locker.ledger := hp.ledger.trans hacc.ledger
  have hsup' : Sums w'.now w'.locker := hsup.congr hnow.ge (by rw [hledger]) (by rw [hledger])
    (by rw [hledger]) (by rw [hp.config.trans hacc.config]; exact id)
  -- the credits are the listed amounts
  have hcredit : ∀ t ∈ tokens, (s.rewards.userData u t).rewards =
      (accrued w.locker w.now t).earned precision u := fun t ht => credit_eq hu hx ht
  have hmem : ∀ p ∈ (tokens.map (entry w.locker w.now u)).zip _skipIdx,
      ∃ t ∈ tokens, p.1 = entry w.locker w.now u t ∧ (t, p.2) ∈ tokens.zip _skipIdx := by
    intro p hm
    rw [List.zip_map_left] at hm
    obtain ⟨q, hq, rfl⟩ := List.mem_map.1 hm
    exact ⟨q.1, (List.of_mem_zip hq).1, rfl, hq⟩
  refine ⟨fun p hm hskip => ?_, fun t ht => ?_, ?_, fun v hv => ?_⟩
  · obtain ⟨t, ht, he, hz⟩ := hmem p hm
    rw [hskip] at hz
    rw [he]
    show w'.balance t = _
    rw [hp.balance, if_pos (mem_unskipped.2 hz)]
    show move (w.balance t) s.config.self u (s.rewards.userData u t).rewards = _
    rw [hacc.config, hcredit t ht]
    rfl
  · rw [hp.balance, if_neg fun hc => ?_]
    · rfl
    · refine ht (entry w.locker w.now u t, false) ?_ rfl rfl
      rw [List.zip_map_left]
      exact List.mem_map.2 ⟨_, mem_unskipped.1 hc, rfl⟩
  · rw [hs'.claimableRewards_eq hsup' hu, htw, List.zip_map_left, List.map_map]
    have hfst : tokens = (tokens.zip _skipIdx).map Prod.fst :=
      (List.map_fst_zip hlen.symm.le).symm
    rw [show tokens.map (entry w'.locker w'.now u) =
      ((tokens.zip _skipIdx).map Prod.fst).map (entry w'.locker w'.now u) by rw [← hfst],
      List.map_map]
    refine congrArg Except.ok (List.map_congr_left fun q hq => ?_)
    exact hp.entry_eq hfresh hu hx hq
  · exact hp.claimableRewards_of_ne h hsup hx hv

/-- In a reachable world whose rewards per token fit in `uint96`, both variants of
`getReward` return, for every account but zero, and pay exactly what `claimableRewards`
lists and what is not skipped. What is skipped stays claimable, and so does what all others
can claim. -/
theorem claimableRewards_exact {log : List Event} (h : Reachable log w) (hu : u ≠ 0)
    (hfits : ∀ token ∈ w.locker.rewards.rewardTokens, ∀ x,
      _rewardPerToken w.locker w.now token = .ok x → x < 2 ^ 96) :
    ∃ rewards, claimableRewards w.locker w.now u = .ok rewards ∧
      rewards.map EarnedData.token = w.locker.rewards.rewardTokens ∧
      (∀ sender, ∃ w', getReward w sender u false = .ok w' ∧
        Collected w w' u (rewards.map (·, false))) ∧
      ∀ sender (_skipIdx : List Bool), _skipIdx.length = w.locker.rewards.rewardTokens.length →
        ∃ w', getRewardSkip w sender u _skipIdx = .ok w' ∧
          Collected w w' u (rewards.zip _skipIdx) := by
  obtain ⟨first, hinv⟩ := h.ledgerInv
  have hs := h.solvent
  have hsup := hinv.sums.users_le
  have hfunded : ∀ token ∈ w.locker.rewards.rewardTokens,
      Funded w.now w.locker token (w.balance token w.locker.config.self) := fun token hm =>
    hs.funded token fun he => hs.notReward (he ▸ hm)
  obtain ⟨s, hx⟩ := exists_foldlM_updateRewardToken (a := u) hs.now_pos
    w.locker.rewards.rewardTokens hsup (fun token hm => ⟨_, hfunded token hm⟩)
    fun token hm => hfits token hm _ (hfunded token hm).rewardPerToken_eq
  have hx : updateReward w.locker w.now u = .ok s := hx
  have hacc := updateReward_accrued hx
  have hs₀ : Solvent { w with locker := s } := by
    refine ⟨hs.now_pos, hs.registered.updateReward hx, ?_, fun token hne => ?_⟩
    · rw [hacc.config, hacc.rewardTokens]
      exact hs.notReward
    · dsimp only at hne ⊢
      rw [hacc.config] at hne ⊢
      exact (hs.funded token hne).updateReward hs.now_pos hsup hx
  have hskip : ∀ sender (_skipIdx : List Bool),
      _skipIdx.length = w.locker.rewards.rewardTokens.length →
      ∃ w', getRewardSkip w sender u _skipIdx = .ok w' ∧ Collected w w' u
        ((w.locker.rewards.rewardTokens.map (entry w.locker w.now u)).zip _skipIdx) := by
    intro sender _skipIdx hlen
    have hm : ∀ token ∈ unskipped w.locker.rewards.rewardTokens _skipIdx,
        token ∈ s.rewards.rewardTokens := by
      intro token hm
      rw [hacc.rewardTokens]
      exact (List.of_mem_zip (mem_unskipped.1 hm)).1
    obtain ⟨w', hw', hs', hp⟩ := Solvent.exists_pays sender hu hs₀
      (by rw [hacc.config]; exact h.self_ne) hm
    refine ⟨w', ?_, hs.collected hinv.sums h.fresh hu hlen hx hp hs'⟩
    unfold getRewardSkip
    rw [hx, ok_bind, hacc.rewardTokens, require_of hlen, ok_bind, foldlM_skip]
    exact hw'
  refine ⟨_, hs.claimableRewards_eq hinv.sums hu, ?_, fun sender => ?_, hskip⟩
  · rw [List.map_map]
    exact List.map_id _
  · obtain ⟨w', hw', hc⟩ := hskip sender _ List.length_replicate
    refine ⟨w', (getReward_eq_skip w sender u).trans hw', ?_⟩
    have hzip : ∀ rewards : List EarnedData,
        rewards.zip (List.replicate rewards.length false) = rewards.map (·, false) := by
      intro rewards
      induction rewards with
      | nil => rfl
      | cons r rewards ih => exact congrArg ((r, false) :: ·) ih
    rw [← hzip, List.length_map]
    exact hc

/-- Half a week into a period, the account 1 collects from two of three tokens. -/
theorem claimableRewards_exact_run : ∃ w w' : World,
    claimableRewards w.locker w.now 1 =
        .ok [⟨300, 3 * 302400⟩, ⟨301, 5 * 302400⟩, ⟨302, 302400⟩] ∧
      getRewardSkip w 2 1 [false, true, false] = .ok w' ∧
      claimableRewards w'.locker w'.now 1 = .ok [⟨300, 0⟩, ⟨301, 5 * 302400⟩, ⟨302, 0⟩] := by
  let start := 20 * rewardsDuration
  let log : List Event := [⟨start, 1, .lock 1 (10 ^ 20)⟩, ⟨start, 101, .addReward 300 1⟩,
    ⟨start, 101, .addReward 301 1⟩, ⟨start, 101, .addReward 302 1⟩,
    ⟨start, 1, .queueNewRewards 300 (3 * rewardsDuration)⟩,
    ⟨start, 1, .queueNewRewards 301 (5 * rewardsDuration)⟩,
    ⟨start, 1, .queueNewRewards 302 rewardsDuration⟩,
    ⟨start + 302400, 1, .checkpointEpoch⟩]
  let w := (World.initial start).after log
  have h : Reachable log w := ⟨_, World.initial_deployed (by decide), .after (by decide +kernel)⟩
  have htokens : w.locker.rewards.rewardTokens = [300, 301, 302] := by decide +kernel
  have hlist : claimableRewards w.locker w.now 1 =
      .ok [⟨300, 3 * 302400⟩, ⟨301, 5 * 302400⟩, ⟨302, 302400⟩] := by decide +kernel
  have hrpt : [300, 301, 302].map (_rewardPerToken w.locker w.now) =
      [.ok 9072, .ok 15120, .ok 3024] := by decide +kernel
  obtain ⟨rewards, hrewards, -, -, hskip⟩ := claimableRewards_exact h (u := 1) (by decide)
    fun token hm x hx => by
      have hmem := List.mem_map_of_mem (f := _rewardPerToken w.locker w.now) (htokens ▸ hm)
      rw [hrpt, hx] at hmem
      simp only [List.mem_cons, Except.ok.injEq, List.not_mem_nil, or_false] at hmem
      omega
  rw [hlist] at hrewards
  cases hrewards
  obtain ⟨w', hw', hc⟩ := hskip 2 [false, true, false] (by rw [htokens]; rfl)
  exact ⟨w, w', hlist, hw', hc.claimable⟩

/-- Half a week's rewards are listed for the zero account, which locks after they were
streamed, and nothing is paid. -/
theorem claimableRewards_zero : ¬∀ {log : List Event} {w : World}, Reachable log w → ∀ u,
    (∀ token ∈ w.locker.rewards.rewardTokens, ∀ x,
      _rewardPerToken w.locker w.now token = .ok x → x < 2 ^ 96) →
    ∃ rewards, claimableRewards w.locker w.now u = .ok rewards ∧
      ∀ sender, ∃ w', getReward w sender u false = .ok w' ∧
        Collected w w' u (rewards.map (·, false)) := by
  intro h
  let start := 20 * rewardsDuration
  let log : List Event := [⟨start, 1, .lock 1 (10 ^ 20)⟩, ⟨start, 101, .addReward 300 1⟩,
    ⟨start, 1, .queueNewRewards 300 rewardsDuration⟩,
    ⟨start + rewardsDuration, 1, .lock 0 (10 ^ 20)⟩]
  let w := (World.initial start).after log
  have hrun : Reachable log w :=
    ⟨_, World.initial_deployed (by decide), .after (by decide +kernel)⟩
  have htokens : w.locker.rewards.rewardTokens = [300] := by decide +kernel
  have hrpt : _rewardPerToken w.locker w.now 300 = .ok 6048 := by decide +kernel
  obtain ⟨rewards, hrewards, hall⟩ := h hrun 0 fun token hm x hx => by
    rw [htokens, List.mem_singleton] at hm
    rw [hm, hrpt] at hx
    cases hx
    norm_num
  have hlist : claimableRewards w.locker w.now 0 = .ok [⟨300, rewardsDuration⟩] := by
    decide +kernel
  rw [hlist] at hrewards
  cases hrewards
  obtain ⟨w', hw', hc⟩ := hall 1
  have hpaid := congrFun (hc.paid (⟨300, rewardsDuration⟩, false) (by simp) rfl) 0
  have hnone : (getReward w 1 0 false).map (fun w => w.balance 300 0) = .ok 0 := by decide +kernel
  have hbefore : move (w.balance 300) w.locker.config.self 0 rewardsDuration 0 =
      rewardsDuration := by decide +kernel
  rw [hw'] at hnone
  have hzero : w'.balance 300 0 = 0 := Except.ok.inj hnone
  have hfull : w'.balance 300 0 = rewardsDuration := hpaid.trans hbefore
  exact absurd (hzero.symm.trans hfull) (by decide)

end Aura.Locker
