import Aura.Locker.PastVotes
import Aura.Rewards.Entries

/-!
# Rewards : the current epoch

`balanceOf` and `totalSupply` of `AuraLocker` ask for the epoch that `findEpochId` finds for
now, and `addReward` of `ExtraRewardsDistributor` for the newest one. As long as unlock times
fit in `uint32`, they are answered at every time that is not the start of a week, and rewards
can be added for an epoch with a supply (`currentViews_total`).

At the start of a week the views revert, since they want the start of the epoch to be before
now, though the epoch is not in the future and `getVotes` answers (`currentViews_revert`).
-/

open Evm Function

namespace Aura.Locker

open AuraMath

variable {first n now : ℕ} {s : Storage}

theorem Fits.epochOf_lt (h : Fits now) : epochOf now < 2 ^ 32 :=
  (Nat.le_add_right _ _).trans_lt h

/-- The current epoch is found. -/
theorem Dated.findEpochId_now (h : Dated first n now s) :
    findEpochId s now = .ok (week now - first) := by
  have h0 : s.ledger.epochs[0]? =
      some ⟨lockedIn s.ledger.userLocks first, first * rewardsDuration⟩ := by
    simp [h.epochs, epochsFrom, List.range'_succ]
  have hfirst : first ≤ week now := (Nat.le_add_right _ _).trans h.current
  have hle : first * rewardsDuration ≤ now :=
    (Nat.mul_le_mul_right _ hfirst).trans (epochOf_le now)
  unfold findEpochId
  rw [index_eq_ok.2 h0, ok_bind, sub, usub_of hle, ok_bind, Nat.mul_comm first, Nat.sub_mul_div]
  rfl

/-- It starts at the start of the week. -/
theorem Dated.epochStartOf_now (h : Dated first n now s) (hfit : Fits now) :
    epochStartOf s (week now - first) =
      .ok ((first + (week now - first)) * rewardsDuration) := by
  have hfirst : first ≤ week now := (Nat.le_add_right _ _).trans h.current
  have hlt := hfit.epochOf_lt
  rw [epochOf_eq] at hlt
  have hle : (week now - first) * rewardsDuration ≤ week now * rewardsDuration :=
    Nat.mul_le_mul_right _ (Nat.sub_le _ _)
  have hsum : first * rewardsDuration + (week now - first) * rewardsDuration =
      week now * rewardsDuration := by
    rw [← Nat.add_mul, Nat.add_sub_cancel' hfirst]
  rw [h.epochStartOf_first, mul, umul_of (by omega), ok_bind, add, uadd_of (by omega), Nat.add_mul]

/-- A time that is not the start of a week. -/
theorem epochOf_lt_of_not_dvd (h : ¬rewardsDuration ∣ now) : epochOf now < now :=
  (epochOf_le now).lt_of_ne fun he => h ⟨week now, by rw [Nat.mul_comm]; exact he.symm⟩

/-- What the views answer about the current epoch, unless it has just begun. -/
theorem Dated.currentViews (h : Dated first n now s) (hfirst : 17 ≤ first) (hfit : Fits now)
    (hnow : ¬rewardsDuration ∣ now) :
    (∀ u, balanceOf s now u = .ok (activeAmount (s.ledger.userLocks u)
        ((first + (week now - first)) * rewardsDuration))) ∧
      totalSupply s now = totalSupplyAtEpoch s now (week now - first) ∧
      totalSupplyAtEpoch s now (week now - first) =
        .ok (windowSum (lockedIn s.ledger.userLocks) (first + (week now - first))) := by
  have hk : 17 ≤ first + (week now - first) := hfirst.trans (Nat.le_add_right _ _)
  have hE := h.epochStartOf_now hfit
  have hlt : (first + (week now - first)) * rewardsDuration < now := by
    rw [Nat.add_sub_cancel' ((Nat.le_add_right _ _).trans h.current)]
    exact epochOf_lt_of_not_dvd hnow
  refine ⟨fun u => ?_, ?_, h.totalSupplyAtEpoch_eq hk hE hlt⟩
  · unfold balanceOf
    rw [h.findEpochId_now, ok_bind, h.balanceAtEpochOf_eq hk hE hlt]
  · unfold totalSupply
    rw [h.findEpochId_now, ok_bind]

end Aura.Locker

namespace Aura.Rewards

open Locker (Dated Fits week rewardsDuration lockDuration)

/-- What an addition of rewards needs of the tokens and the numbers. -/
structure CanAdd (w : World) (sender token : Address) (amount epoch supply : ℕ) : Prop where
  whitelisted : w.distributor.canAddReward sender = true
  amount_pos : 0 < amount
  transfer : ∃ t, (w.chain.tokens token).transferFrom w.distributor.self sender
    w.distributor.self amount = .ok t
  amount_lt : amount * 10 ^ 20 < 2 ^ 256
  data_lt : w.distributor.rewardData token epoch + amount * 10 ^ 20 / supply < 2 ^ 256

/-- With a supply, rewards can be added. -/
theorem exists_addReward_of {w : World} {sender token : Address} {amount epoch supply : ℕ}
    (h : CanAdd w sender token amount epoch supply)
    (hsupply : w.totalSupplyAtEpoch epoch = .ok supply) (hpos : 0 < supply) :
    ∃ w', w._addReward sender token amount epoch = .ok w' := by
  obtain ⟨t, ht⟩ := h.transfer
  unfold World._addReward
  dsimp only
  rw [require_of h.whitelisted, ok_bind, require_of h.amount_pos, ok_bind, ht, ok_bind, hsupply,
    ok_bind, umul_of h.amount_lt, ok_bind, udiv_of hpos.ne', ok_bind, uadd_of h.data_lt, ok_bind]
  exact ⟨_, rfl⟩

/-- `addReward` adds rewards for the current epoch. -/
theorem exists_addReward {w : World} {first n : ℕ} (hd : Dated first n w.chain.now w.chain.locker)
    (hfirst : 17 ≤ first) (hfit : Fits w.chain.now) (hnow : ¬rewardsDuration ∣ w.chain.now)
    {supply : ℕ} (hsupply : Locker.totalSupply w.chain.locker w.chain.now = .ok supply)
    (hpos : 0 < supply) {sender token : Address} {amount : ℕ}
    (h : CanAdd w sender token amount (week w.chain.now - first) supply) :
    ∃ w', w.addReward sender token amount = .ok w' := by
  have hck := hd.checkpointEpoch_eq hfit
  set l : Locker.Ledger := { w.chain.locker.ledger with
    epochs := Locker.epochsFrom first (week w.chain.now - first + 1)
      (Locker.lockedIn w.chain.locker.ledger.userLocks) } with hl
  set w₁ : World := { w with chain := { w.chain with
    locker := { w.chain.locker with ledger := l } } } with hw₁
  have hone : w.checkpointEpoch = .ok w₁ := by
    unfold World.checkpointEpoch Locker.World.checkpointEpoch
    rw [hck]
    rfl
  have hlatest : w₁.latestEpoch = .ok (week w.chain.now - first) := by
    unfold World.latestEpoch
    have hlen : l.epochs.length = week w.chain.now - first + 1 := by simp [hl, Locker.epochsFrom]
    rw [hw₁, hlen]
    exact usub_add_right _ _
  have hd₁ : Dated first (week w.chain.now - first) w₁.chain.now w₁.chain.locker :=
    hd.of_checkpoint hfit hck rfl
  obtain ⟨-, htotal, hsum⟩ := hd.currentViews hfirst hfit hnow
  obtain ⟨-, -, hsum₁⟩ := hd₁.currentViews hfirst hfit hnow
  -- the checkpoint does not change what was locked
  have hsupply₁ : w₁.totalSupplyAtEpoch (week w.chain.now - first) = .ok supply := by
    rw [← hsupply, htotal, hsum]
    exact hsum₁
  unfold World.addReward
  rw [hone, ok_bind, hlatest, ok_bind]
  exact exists_addReward_of (w := w₁)
    ⟨h.whitelisted, h.amount_pos, h.transfer, h.amount_lt, h.data_lt⟩ hsupply₁ hpos

/-- For a locker deployed at least 17 weeks after time zero, and as long as unlock times fit in
`uint32` : the current votes are always known. At a time that is not the start of a week so
are the current balances and supply, and rewards can be added if there is a supply. -/
theorem currentViews_total {log : List Locker.Event} {w₀ : Locker.World} {w : World}
    (h₀ : Locker.Deployed w₀) (hold : lockDuration ≤ w₀.now) (hs : Locker.Steps w₀ log w.chain)
    (hfit : Fits w.chain.now) :
    (∀ u, ∃ n, Locker.getVotes w.chain.locker w.chain.now u = .ok n) ∧
    (¬rewardsDuration ∣ w.chain.now →
      (∀ u, ∃ n, Locker.balanceOf w.chain.locker w.chain.now u = .ok n) ∧
      ∃ epoch supply, Locker.findEpochId w.chain.locker w.chain.now = .ok epoch ∧
        Locker.totalSupply w.chain.locker w.chain.now = .ok supply ∧
        (0 < supply → ∀ sender token amount, CanAdd w sender token amount epoch supply →
          ∃ w', w.addReward sender token amount = .ok w')) := by
  refine ⟨fun u => ⟨_, (Locker.getPastVotes_exact ⟨w₀, h₀, hs⟩ hfit).1 u _ le_rfl⟩, fun hnow => ?_⟩
  obtain ⟨n, hd⟩ := (h₀.ledgerInv hs).dated hfit
  have hfirst : 17 ≤ week w₀.now := by
    rw [Locker.lockDuration_eq] at hold
    exact (Nat.le_div_iff_mul_le Locker.rewardsDuration_pos).2 hold
  obtain ⟨hbalance, htotal, hsum⟩ := hd.currentViews hfirst hfit hnow
  refine ⟨fun u => ⟨_, hbalance u⟩, _, _, hd.findEpochId_now, htotal.trans hsum, ?_⟩
  exact fun hpos sender token amount h =>
    exists_addReward hd hfirst hfit hnow (htotal.trans hsum) hpos h

/-- The account 1 locks in week 20 and adds a reward a second into week 21. -/
theorem currentViews_total_run : ∃ w w' : World, w.chain.now = 21 * rewardsDuration + 1 ∧
    (∃ n, Locker.balanceOf w.chain.locker w.chain.now 1 = .ok n) ∧
    w.addReward 1 400 7 = .ok w' := by
  let start := 20 * rewardsDuration
  let log : List Locker.Event :=
    [⟨start, 1, .lock 1 5⟩, ⟨21 * rewardsDuration + 1, 1, .checkpointEpoch⟩]
  let chain := (Locker.World.initial start).after log
  let w : World := ⟨chain, ⟨300, 101, fun _ => true, fun _ _ => 0, fun _ => [], fun _ _ => 0⟩, []⟩
  have hs : Locker.Steps (Locker.World.initial start) log w.chain := .after (by decide +kernel)
  have hnow : w.chain.now = 21 * rewardsDuration + 1 := by decide +kernel
  obtain ⟨-, hviews⟩ := currentViews_total (Locker.World.initial_deployed (by decide)) (by decide)
    hs (by decide +kernel)
  obtain ⟨hbalance, epoch, supply, hepoch, hsupply, hadd⟩ :=
    hviews (by rw [hnow]; decide +kernel)
  have hepoch' : Locker.findEpochId w.chain.locker w.chain.now = .ok 1 := by decide +kernel
  have hsupply' : Locker.totalSupply w.chain.locker w.chain.now = .ok 5 := by decide +kernel
  obtain rfl := Except.ok.inj (hepoch.symm.trans hepoch')
  obtain rfl := Except.ok.inj (hsupply.symm.trans hsupply')
  obtain ⟨t, ht⟩ := Tx.exists_ok (x := (w.chain.tokens 400).transferFrom w.distributor.self 1
    w.distributor.self 7) (by decide +kernel)
  obtain ⟨w', hw'⟩ := hadd (by decide) 1 400 7
    ⟨rfl, by decide, ⟨t, ht⟩, by norm_num, by decide +kernel⟩
  exact ⟨w, w', hnow, hbalance 1, hw'⟩

/-- At the start of a week `balanceOf`, `totalSupply` and `addReward` revert, whereas `getVotes`
answers. Later in a week, `balanceOf` reverts after a lock whose unlock time does not fit in
`uint32`. -/
theorem currentViews_revert :
    (∃ (log : List Locker.Event) (w : World), Locker.Reachable log w.chain ∧
      w.chain.now = 21 * rewardsDuration ∧
      w.distributor.canAddReward 1 = true ∧
      Locker.balanceOf w.chain.locker w.chain.now 1 = .error (.reason "Epoch is in the future") ∧
      Locker.totalSupply w.chain.locker w.chain.now = .error (.reason "Epoch is in the future") ∧
      w.addReward 1 400 7 = .error (.reason "Epoch is in the future") ∧
      Locker.totalSupply w.chain.locker (w.chain.now + 1) = .ok 5 ∧
      Locker.getVotes w.chain.locker w.chain.now 1 = .ok 0) ∧
    ∃ (log : List Locker.Event) (w : Locker.World), Locker.Reachable log w ∧
      w.now = 7085 * rewardsDuration + 1 ∧
      Locker.balanceOf w.locker w.now 1 = .error .underflow := by
  constructor
  · let start := 20 * rewardsDuration
    let log : List Locker.Event :=
      [⟨start, 1, .lock 1 5⟩, ⟨21 * rewardsDuration, 1, .checkpointEpoch⟩]
    let chain := (Locker.World.initial start).after log
    let w : World := ⟨chain, ⟨300, 101, fun _ => true, fun _ _ => 0, fun _ => [], fun _ _ => 0⟩, []⟩
    have h : Locker.Reachable log w.chain :=
      ⟨_, Locker.World.initial_deployed (by decide), .after (by decide +kernel)⟩
    have hadd : (w.addReward 1 400 7).map (fun _ => ()) =
        .error (.reason "Epoch is in the future") := by decide +kernel
    exact ⟨log, w, h, by decide +kernel, rfl, by decide +kernel, by decide +kernel,
      Tx.eq_error_of_map hadd, by decide +kernel, by decide +kernel⟩
  · let start := 7085 * rewardsDuration
    let log : List Locker.Event := [⟨start, 1, .lock 1 5⟩, ⟨start + 1, 1, .checkpointEpoch⟩]
    have h : Locker.Reachable log ((Locker.World.initial start).after log) :=
      ⟨_, Locker.World.initial_deployed (by decide), .after (by decide +kernel)⟩
    exact ⟨log, _, h, by decide +kernel, by decide +kernel⟩

end Aura.Rewards
