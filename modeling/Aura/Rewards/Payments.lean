import Aura.Rewards.Solvency

/-!
# Rewards : every epoch is paid once

An account that never gives up claims has been paid exactly the shares before its cursor
(`paidTo_eq_read`), and a claim moves the cursor to the end of what is locked in. So after a
claim it has been paid its share of every epoch that is locked in, however often and
whenever there were claims for it before.

What was paid is read off the events. A call moves the tokens of the events that it adds, and
takes no others from the distributor (`exec_movesPaid`).
-/

open Evm Function Finset

namespace Aura.Rewards

open Cursor
open Locker (Fits)

variable {w w' w₁ : World} {sender token u : Address} {c : Call} {B : ℕ → Address → ℕ}
  {S : ℕ → ℕ}

/-- What was paid to an account. -/
def World.paidTo (w : World) (token u : Address) : ℕ :=
  ((w.rewardPaid.filter fun p => p.token = token ∧ p.user = u).map RewardPaid.reward).sum

/-- In the calls of a log, an account gives up no claims of a token. -/
def NoSkip (log : List Event) (token u : Address) : Prop :=
  ∀ e ∈ log, e.sender = u → e.call.skips ≠ some token

instance (log : List Event) (token u : Address) : Decidable (NoSkip log token u) :=
  inferInstanceAs (Decidable (∀ e ∈ log, _))

theorem NoSkip.of_append {log log' : List Event} (h : NoSkip (log ++ log') token u) :
    NoSkip log token u ∧ NoSkip log' token u :=
  ⟨fun e he => h e (List.mem_append_left _ he), fun e he => h e (List.mem_append_right _ he)⟩

/-! ## One claim -/

/-- A claim without a start index pays what is due from the cursor on. -/
theorem claim_eq {r : ℕ × ℕ} (hv : Views B S w) (h : Books B S token w) (hi : Indexed w token)
    (hr : w._allClaimableRewards u token 0 = .ok r) :
    read B w token u + r.1 =
      ((due w.latest (w.distributor.rewardEpochs token)).map (share B w token u)).sum := by
  obtain ⟨k, -, hk, hn, -⟩ := allClaimable_eq_ok (g := share B w token u) hi
    (fun e he x hx => claimable_eq hv h he hx) hr
  rw [read, take_eq hi.sorted (hi.claims u), hn, hk rfl]
  exact sum_take_add_drop _ _ _

theorem Paid.paidTo_eq {account t : Address} {n index : ℕ} (h : Paid w w' account t n index) :
    w'.paidTo token u = w.paidTo token u + if token = t ∧ u = account then n else 0 := by
  unfold World.paidTo
  rw [h.rewardPaid]
  by_cases hp : token = t ∧ u = account
  · obtain ⟨rfl, rfl⟩ := hp
    simp [Nat.add_comm]
  · have hp' : ¬(t = token ∧ account = u) := fun h => hp ⟨h.1.symm, h.2.symm⟩
    simp [hp, hp']

/-! ## Runs -/

/-- A call pays an account what its cursor passes. -/
theorem paidTo_effect (hj : Joint w) (hc : IsCaller w sender) (hi : AllIndexed w)
    (hfit : Fits w'.chain.now) (hv : Views B S w') (hb : ∀ token, Books B S token w)
    (he : Effect w w' sender c) (hskip : sender = u → c.skips ≠ some token)
    (h : w.paidTo token u = read B w token u) : w'.paidTo token u = read B w' token u := by
  obtain ⟨⟨_, hs⟩, -⟩ := hj.effect_steps hc he
  have hv₀ := hv.back hj hs hfit
  have hsame : ∀ {v v' : World}, SameBooks v v' →
      read B v' token u = read B v token u ∧ v'.paidTo token u = v.paidTo token u := by
    intro v v' hs
    exact ⟨hs.read_eq u, by unfold World.paidTo; rw [hs.rewardPaid]⟩
  cases he with
  | locker call same =>
    obtain ⟨hread, hpaid⟩ := hsame same
    rw [hpaid, hread, h]
  | settings chain same =>
    obtain ⟨hread, hpaid⟩ := hsame same
    rw [hpaid, hread, h]
  | fund checkpoint le later done =>
    rename_i w₁ t n e
    obtain ⟨-, hd, hp⟩ := checkpointEpoch_eq_ok checkpoint
    obtain ⟨hread₁, hpaid₁⟩ := hsame (.of_eq hd hp)
    have hpaid : w'.paidTo token u = w₁.paidTo token u := by
      unfold World.paidTo
      rw [done.rewardPaid]
    rw [hpaid, hpaid₁, h, ← hread₁]
    by_cases ht : token = t
    · subst ht
      exact (done.read_eq (hi.checkpoint hj checkpoint token) later u).symm
    · exact (done.read_of_ne ht u).symm
  | claim hdue done skip =>
    rename_i account t start n index
    rw [done.paidTo_eq, read_setUserClaims done.distributor, h]
    by_cases hp : token = t ∧ u = account
    · obtain ⟨rfl, rfl⟩ := hp
      -- the account has not asked for a start index
      have h0 : start = 0 := skip.resolve_right fun hs => hskip hs.1.symm hs.2
      subst h0
      rw [if_pos ⟨rfl, rfl⟩, if_pos ⟨rfl, rfl⟩, claim_eq hv₀ (hb token) (hi token) hdue,
        done.index_eq (hi token) hdue, ← due_eq_take (hi token).sorted]
    · rw [if_neg hp, if_neg hp, Nat.add_zero]
  | forfeit lt le done skip =>
    rename_i t index
    subst done
    rw [read_setUserClaims rfl, if_neg]
    · exact h
    · rintro ⟨rfl, rfl⟩
      exact hskip rfl skip

/-- What was paid to an account that gives up nothing is what its cursor has passed. -/
theorem paidTo_eq_read {log : List Event} (h : Reachable log w) (hfit : Fits w.chain.now)
    (hv : Views B S w) (hskip : NoSkip log token u) :
    w.paidTo token u = read B w token u := by
  obtain ⟨w₀, h₀, hs⟩ := h
  induction hs with
  | refl =>
    have hpaid : w₀.rewardPaid = [] := h₀.rewardPaid
    have hes : w₀.distributor.rewardEpochs token = [] := by rw [h₀.distributor]
    simp [World.paidTo, read, hpaid, hes]
  | elsewhere hs he ih =>
    have hj : Joint _ := Reachable.joint ⟨w₀, h₀, hs⟩
    have ih := ih (hfit.mono he.chain.now) (hv.back hj he.steps hfit) hskip
    unfold World.paidTo read at ih ⊢
    rw [he.rewardPaid, he.distributor, ih, share_congr (by rw [he.distributor])]
  | call hs hc hx ih =>
    have hr : Reachable _ _ := ⟨w₀, h₀, hs⟩
    obtain ⟨⟨_, hs'⟩, -⟩ := hr.joint.effect_steps hc (exec_effect hx)
    have hfit₁ := hfit.mono hs'.now_le
    have hv₁ := hv.back hr.joint hs' hfit
    obtain ⟨hlog, hlast⟩ := hskip.of_append
    exact paidTo_effect hr.joint hc hr.allIndexed hfit hv (hr.books hfit₁ hv₁) (exec_effect hx)
      (hlast _ (List.mem_singleton_self _)) (ih hfit₁ hv₁ hlog)

/-! ## The tokens of a payment -/

/-- An account gets the tokens that are recorded as paid to it, and only such tokens leave the
distributor. -/
structure MovesPaid (w w' : World) (token : Address) : Prop where
  gets : ∀ u, w'.paidTo token u = w.paidTo token u ∨ ∃ n,
    w'.paidTo token u = w.paidTo token u + n ∧ n ≤ w.held token ∧
      w'.chain.balance token = move (w.chain.balance token) w.distributor.self u n
  leaves : w'.held token < w.held token → ∃ u, w.paidTo token u < w'.paidTo token u

/-- Nothing is paid, and the distributor loses nothing. -/
theorem MovesPaid.of_le (hpaid : w'.rewardPaid = w.rewardPaid)
    (hheld : w.held token ≤ w'.held token) : MovesPaid w w' token :=
  ⟨fun u => .inl (by unfold World.paidTo; rw [hpaid]), fun hlt => absurd hheld hlt.not_ge⟩

theorem exec_movesPaid (hj : Joint w) (hc : IsCaller w sender) (hx : exec w sender c = .ok w') :
    MovesPaid w w' token := by
  obtain ⟨-, hself⟩ := hj.effect_steps hc (exec_effect hx)
  cases exec_effect hx with
  | locker call same =>
    refine .of_le same.rewardPaid ?_
    unfold World.held
    rw [hself]
    exact Locker.exec_balance_le hc.2.symm hj.locker_ne call token
  | settings chain same =>
    refine .of_le same.rewardPaid ?_
    unfold World.held
    rw [hself, chain]
  | fund checkpoint le later done =>
    obtain ⟨hck, hd, hp⟩ := checkpointEpoch_eq_ok checkpoint
    obtain ⟨l, -, hck⟩ := bind_eq_ok.1 hck
    refine .of_le (done.rewardPaid.trans hp) ?_
    have hb := done.moved.balance_le (a := w.distributor.self) hc.2.symm token
    unfold World.held
    rw [hself]
    rw [← Except.ok.inj hck] at hb
    exact hb
  | claim hdue done skip =>
    rename_i account t start n index
    refine ⟨fun u => ?_, fun hlt => ⟨account, ?_⟩⟩
    · rw [done.paidTo_eq]
      by_cases hp : token = t ∧ u = account
      · obtain ⟨rfl, rfl⟩ := hp
        rw [if_pos ⟨rfl, rfl⟩]
        refine .inr ⟨n, rfl, done.moved.enough, ?_⟩
        rw [done.moved.balance, if_pos rfl]
      · rw [if_neg hp]
        exact .inl rfl
    · -- no other token leaves
      have ht : token = t := by
        by_contra hne
        unfold World.held at hlt
        rw [hself, done.moved.balance, if_neg hne] at hlt
        exact lt_irrefl _ hlt
      rw [done.paidTo_eq, if_pos ⟨ht, rfl⟩]
      exact Nat.lt_add_of_pos_right done.pos
  | forfeit lt le done skip =>
    refine .of_le (by rw [done]; rfl) ?_
    rw [done]
    exact le_rfl

/-! ## The tokens of a reward -/

/-- A reward was added to `e` : the epoch is listed, its reward is raised by the share of the
amount, and the distributor has got the tokens. -/
structure Rewarded (w w' : World) (sender token : Address) (n e : ℕ) : Prop where
  listed : e ∈ w'.distributor.rewardEpochs token
  rewardData : ∃ supply, w'.totalSupplyAtEpoch e = .ok supply ∧
    w'.distributor.rewardData token e = w.distributor.rewardData token e + n * 10 ^ 20 / supply
  balance : w'.chain.balance token = move (w.chain.balance token) sender w.distributor.self n

theorem Rewarded.funded {w₁ : World} {n e : ℕ} (hj : Joint w) (hi : AllIndexed w)
    (h₁ : w.checkpointEpoch = .ok w₁) (hf : Funded w₁ w' sender token n e)
    (hlater : e = w₁.latest ∨ World.isAfter (w₁.distributor.rewardEpochs token) e = true) :
    Rewarded w w' sender token n e := by
  obtain ⟨hck, hd, -⟩ := checkpointEpoch_eq_ok h₁
  obtain ⟨l, -, hck⟩ := bind_eq_ok.1 hck
  obtain ⟨supply, hsupply, -, hdata⟩ := hf.rate
  refine ⟨(hf.mem_epochs (hi.checkpoint hj h₁ token) hlater).1, ⟨supply, ?_, ?_⟩, ?_⟩
  · unfold World.totalSupplyAtEpoch at hsupply ⊢
    rw [hf.moved.locker, hf.moved.now]
    exact hsupply
  · rw [hdata, update_self, update_self, hd]
  · rw [hf.moved.balance, if_pos rfl, ← Except.ok.inj hck, hd]
    rfl

theorem addReward_rewarded {n : ℕ} (hj : Joint w) (hi : AllIndexed w)
    (hx : w.addReward sender token n = .ok w') :
    ∃ m, w'.latestEpoch = .ok m ∧ Rewarded w w' sender token n m := by
  obtain ⟨w₁, h₁, h⟩ := bind_eq_ok.1 hx
  obtain ⟨m, hm, h⟩ := bind_eq_ok.1 h
  obtain ⟨rfl, -⟩ := World.latestEpoch_eq_ok hm
  have hf := addReward_eq_ok h
  refine ⟨w₁.latest, ?_, .funded hj hi h₁ hf (.inl rfl)⟩
  rw [← hm]
  unfold World.latestEpoch
  rw [hf.moved.locker]

theorem addRewardToEpoch_rewarded {n e : ℕ} (hj : Joint w) (hi : AllIndexed w)
    (hx : w.addRewardToEpoch sender token n e = .ok w') : Rewarded w w' sender token n e := by
  obtain ⟨w₁, h₁, h⟩ := bind_eq_ok.1 hx
  obtain ⟨m, hm, h⟩ := bind_eq_ok.1 h
  obtain ⟨rfl, -⟩ := World.latestEpoch_eq_ok hm
  obtain ⟨-, h⟩ := require_bind_eq_ok.1 h
  split_ifs at h with he
  · exact .funded hj hi h₁ (he ▸ addReward_eq_ok h) (.inl he)
  · obtain ⟨hafter, h⟩ := require_bind_eq_ok.1 h
    exact .funded hj hi h₁ (addReward_eq_ok h) (.inr hafter)

/-! ## After a claim -/

/-- The shares of an account in all epochs that are locked in. -/
def entitled (B : ℕ → Address → ℕ) (w : World) (token u : Address) : ℕ :=
  ∑ e ∈ range w.latest, share B w token u e

theorem Indexed.entitled_eq (h : Indexed w token) (B : ℕ → Address → ℕ) (u : Address) :
    entitled B w token u =
      ((due w.latest (w.distributor.rewardEpochs token)).map (share B w token u)).sum := by
  refine (sum_due h.sorted fun e he => ?_).symm
  have hzero : w.distributor.rewardData token e = 0 := of_not_not (mt (h.listed e) he)
  rw [share, hzero, Nat.mul_zero, Nat.zero_div]

theorem getReward_keeps {start : ℕ} (h : w._getReward u token start = .ok w') :
    w'.chain.locker = w.chain.locker ∧ w'.chain.now = w.chain.now ∧
      w'.distributor.rewardData = w.distributor.rewardData := by
  obtain ⟨r, -, ⟨-, rfl⟩ | hp⟩ := getReward_eq_ok h
  · exact ⟨rfl, rfl, rfl⟩
  · exact ⟨hp.moved.locker, hp.moved.now, by rw [hp.distributor]; rfl⟩

/-- After a claim an account that gives up nothing has been paid all it is entitled to. -/
theorem paidTo_eq_entitled {log : List Event} (h : Reachable log w) (hfit : Fits w.chain.now)
    (hskip : NoSkip log token u) (hx : w._getReward u token 0 = .ok w') :
    ∃ B : ℕ → Address → ℕ,
      (∀ e, w'.distributor.rewardData token e ≠ 0 → w'.balanceAtEpochOf e u = .ok (B e u)) ∧
      w'.paidTo token u = entitled B w' token u := by
  obtain ⟨log', hr⟩ := h.joint.chain
  obtain ⟨B, S, hv⟩ := exists_views hr hfit
  have hb := h.books hfit hv token
  have hi := h.allIndexed token
  obtain ⟨hl, hn, hdata⟩ := getReward_keeps hx
  have hlat : w'.latest = w.latest := by
    unfold World.latest
    rw [hl]
  have hshare : share B w' token u = share B w token u := share_congr (by rw [hdata]) u
  have hent : entitled B w' token u = entitled B w token u := by
    rw [entitled, hlat, hshare]
    rfl
  refine ⟨B, fun e he => ?_, ?_⟩
  · rw [hdata] at he
    unfold World.balanceAtEpochOf
    rw [hl, hn]
    exact hv.balance e _ (hb.known e (hi.listed e he)) u
  · obtain ⟨r, hclaim, hdone⟩ := getReward_eq_ok hx
    have hpaid := paidTo_eq_read h hfit hv hskip
    have hsum : read B w token u + r.1 = entitled B w token u :=
      (claim_eq hv hb hi hclaim).trans (hi.entitled_eq B u).symm
    rw [hent, ← hsum, ← hpaid]
    rcases hdone with ⟨h0, rfl⟩ | hp
    · rw [h0, Nat.add_zero]
    · rw [hp.paidTo_eq, if_pos ⟨rfl, rfl⟩]

/-- The epochs of a token increase up to the latest one and include all that have a reward, and
the reward of an epoch that is locked in is final. A reward that is added reaches its epoch,
whenever that is. A call moves exactly the tokens that are recorded as paid. As long as unlock
times fit in `uint32`, a claim leaves an account that gives up nothing with its share of the
reward of every epoch that is locked in, whatever the calls before it were. -/
theorem paid_once {log : List Event} (h : Reachable log w) (token : Address) :
    (w.distributor.rewardEpochs token).Pairwise (· < ·) ∧
    (∀ e, w.distributor.rewardData token e ≠ 0 → e ∈ w.distributor.rewardEpochs token) ∧
    (∃ m, w.latestEpoch = .ok m ∧ ∀ e ∈ w.distributor.rewardEpochs token, e ≤ m ∧
      (e < m → ∀ log' w', Steps w log' w' →
        w'.distributor.rewardData token e = w.distributor.rewardData token e)) ∧
    (∀ sender n w', w.addReward sender token n = .ok w' →
      ∃ m, w'.latestEpoch = .ok m ∧ Rewarded w w' sender token n m) ∧
    (∀ sender n e w', w.addRewardToEpoch sender token n e = .ok w' →
      Rewarded w w' sender token n e) ∧
    (∀ sender c w', IsCaller w sender → exec w sender c = .ok w' → MovesPaid w w' token) ∧
    ∀ u w', Fits w.chain.now → NoSkip log token u → w._getReward u token 0 = .ok w' →
      (∃ B : ℕ → Address → ℕ,
        (∀ e, w'.distributor.rewardData token e ≠ 0 → w'.balanceAtEpochOf e u = .ok (B e u)) ∧
        w'.paidTo token u = entitled B w' token u) ∧
      ∀ log₂ v v', Reachable log₂ v → NoSkip log₂ token u → v._getReward u token 0 = .ok v' →
        v'.chain.locker = w'.chain.locker → v'.chain.now = w'.chain.now →
        v'.distributor.rewardData = w'.distributor.rewardData →
          v'.paidTo token u = w'.paidTo token u := by
  have hi := h.allIndexed
  refine ⟨(hi token).sorted, (hi token).listed, ⟨w.latest, ?_, fun e he =>
    ⟨(hi token).le_latest e he,
      fun hlt log' w' hs => (LockedIn.steps h.joint hi ⟨he, hlt⟩ hs).2⟩⟩,
    fun sender n w' hx => addReward_rewarded h.joint hi hx,
    fun sender n e w' hx => addRewardToEpoch_rewarded h.joint hi hx,
    fun sender c w' hc hx => exec_movesPaid h.joint hc hx, fun u w' hfit hskip hx => ?_⟩
  · obtain ⟨log', hr⟩ := h.joint.chain
    exact usub_of (List.length_pos_of_ne_nil hr.epochs_ne_nil)
  · obtain ⟨B, hB, hpaid⟩ := paidTo_eq_entitled h hfit hskip hx
    refine ⟨⟨B, hB, hpaid⟩, fun log₂ v v' h₂ hskip₂ hx₂ hl hn hdata => ?_⟩
    have hfit₂ : Fits v.chain.now := by
      rw [← (getReward_keeps hx₂).2.1, hn, (getReward_keeps hx).2.1]
      exact hfit
    obtain ⟨B₂, hB₂, hpaid₂⟩ := paidTo_eq_entitled h₂ hfit₂ hskip₂ hx₂
    have hlat : v'.latest = w'.latest := by
      unfold World.latest
      rw [hl]
    rw [hpaid, hpaid₂, entitled, entitled, hlat]
    refine sum_congr rfl fun e _ => ?_
    rw [share, share, hdata]
    by_cases h0 : w'.distributor.rewardData token e = 0
    · rw [h0, Nat.mul_zero, Nat.mul_zero]
    · have hbal : v'.balanceAtEpochOf e u = w'.balanceAtEpochOf e u := by
        unfold World.balanceAtEpochOf
        rw [hl, hn]
      rw [hB e h0, hB₂ e (by rwa [hdata])] at hbal
      rw [Except.ok.inj hbal]

/-- The account 1 locks in week 20 and adds 7 for week 21 and 9 for week 22. It claims in
week 22 and in week 23, when it gets the tokens. -/
theorem paid_once_run : ∃ w w' : World, w._getReward 1 400 0 = .ok w' ∧
    w'.rewardPaid = [⟨1, 400, 9, 2⟩, ⟨1, 400, 7, 1⟩] ∧
    (∃ B : ℕ → Address → ℕ, w'.paidTo 400 1 = entitled B w' 400 1) ∧ MovesPaid w w' 400 := by
  let start := 20 * Locker.rewardsDuration
  let log : List Event := [⟨start, 1, .locker (.lock 1 5)⟩, ⟨start, 101, .modifyWhitelist 1 true⟩,
    ⟨start + Locker.rewardsDuration + 1, 1, .addReward 400 7⟩,
    ⟨start + 2 * Locker.rewardsDuration + 1, 1, .addReward 400 9⟩,
    ⟨start + 2 * Locker.rewardsDuration + 1, 2, .getReward 1 400⟩,
    ⟨start + 3 * Locker.rewardsDuration, 2, .locker .checkpointEpoch⟩]
  have h : Reachable log ((World.initial start).after log) :=
    ⟨_, World.initial_deployed (by decide), .after (by decide +kernel)⟩
  let w := (World.initial start).after log
  obtain ⟨w', hx⟩ := Tx.exists_ok (show (w._getReward 1 400 0).returns = true by decide +kernel)
  have hevents : (w._getReward 1 400 0).map World.rewardPaid =
      .ok [⟨1, 400, 9, 2⟩, ⟨1, 400, 7, 1⟩] := by decide +kernel
  have hcaller : IsCaller w 1 := by decide +kernel
  obtain ⟨-, -, -, -, -, hmoves, hpaid⟩ := paid_once h 400
  obtain ⟨⟨B, -, hpaid⟩, -⟩ := hpaid 1 w' (by decide +kernel) (by decide) hx
  have hmoved : MovesPaid w w' 400 := hmoves 1 (.getReward 1 400) w' hcaller hx
  rw [hx] at hevents
  exact ⟨w, w', hx, Except.ok.inj hevents, ⟨B, hpaid⟩, hmoved⟩

/-- A lock whose unlock time does not fit in `uint32` leaves its owner without a balance in an
epoch that it was paid for. -/
theorem paid_once_truncated : ¬∀ {log : List Event} {w w' : World} {token u : Address},
    Reachable log w → NoSkip log token u → w._getReward u token 0 = .ok w' →
      ∃ B : ℕ → Address → ℕ,
        (∀ e, w'.distributor.rewardData token e ≠ 0 → w'.balanceAtEpochOf e u = .ok (B e u)) ∧
        w'.paidTo token u = entitled B w' token u := by
  intro h
  let start := 7080 * Locker.rewardsDuration
  let log : List Event := [⟨start, 1, .locker (.lock 1 5)⟩, ⟨start, 101, .modifyWhitelist 1 true⟩,
    ⟨start + Locker.rewardsDuration + 1, 1, .addReward 400 10⟩,
    ⟨start + 2 * Locker.rewardsDuration, 1, .locker .checkpointEpoch⟩,
    ⟨start + 2 * Locker.rewardsDuration, 1, .getReward 1 400⟩,
    ⟨start + 22 * Locker.rewardsDuration, 1, .locker (.lock 1 5)⟩]
  let w := (World.initial start).after log
  have hsteps : Steps (World.initial start) log w := .after (by decide +kernel)
  have hdeployed : Deployed (World.initial start) := World.initial_deployed (by decide)
  obtain ⟨w', hx⟩ := Tx.exists_ok (show (w._getReward 1 400 0).returns = true by decide +kernel)
  have hfinal : (w._getReward 1 400 0).map (fun v => (v.distributor.rewardEpochs 400, v.latest,
      v.balanceAtEpochOf 1 1, v.distributor.rewardData 400 1, v.paidTo 400 1)) =
        .ok ([1], 22, .ok 0, 2 * 10 ^ 20, 10) := by decide +kernel
  obtain ⟨B, hB, hpaid⟩ := h ⟨_, hdeployed, hsteps⟩ (by decide) hx
  have hclaimed : Steps (World.initial start) (log ++ [_]) w' :=
    .call hsteps (c := .getReward 1 400) (by decide +kernel : IsCaller w 1) hx
  have hindexed : Indexed w' 400 := Reachable.allIndexed ⟨_, hdeployed, hclaimed⟩ 400
  rw [hx] at hfinal
  simp only [Except.map, Except.ok.injEq, Prod.mk.injEq] at hfinal
  obtain ⟨hes, hlat, hbal, hdata, h10⟩ := hfinal
  have hB₁ := hB 1 (by rw [hdata]; norm_num)
  rw [hbal, Except.ok.injEq] at hB₁
  rw [h10, hindexed.entitled_eq, hes, hlat] at hpaid
  simp [due, share, ← hB₁] at hpaid

end Aura.Rewards
