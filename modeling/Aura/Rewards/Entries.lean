import Aura.Cursor
import Aura.Locker.Bystander
import Aura.Rewards.ExtraRewardsDistributor

/-!
# Rewards : the entries of a token

The effects of the calls (`Effect`), and what they keep without any assumption on time : the
epochs of a token increase and do not exceed the latest one, no account has claimed an epoch
that is not yet locked in (`Indexed`), and the reward of an epoch that is locked in is final.
-/

open Evm Function

namespace Aura.Rewards

open Cursor

variable {w w' w₁ : World} {sender : Address} {c : Call}

/-- The latest epoch of the locker. -/
def World.latest (w : World) : ℕ :=
  w.chain.locker.ledger.epochs.length - 1

theorem World.latestEpoch_eq_ok {m : ℕ} (h : w.latestEpoch = .ok m) :
    m = w.latest ∧ w.chain.locker.ledger.epochs.length = m + 1 := by
  obtain ⟨hle, rfl⟩ := usub_eq_ok.1 h
  exact ⟨rfl, (Nat.sub_add_cancel hle).symm⟩

/-- The token a call gives up claims of, for its sender. -/
def Call.skips : Call → Option Address
  | .getRewardFrom t i => if i = 0 then none else some t
  | .forfeitRewards t _ => some t
  | _ => none

/-! ## Effects -/

/-- The distributor has the same entries and claims. -/
structure SameBooks (w w' : World) : Prop where
  self : w'.distributor.self = w.distributor.self
  rewardData : w'.distributor.rewardData = w.distributor.rewardData
  rewardEpochs : w'.distributor.rewardEpochs = w.distributor.rewardEpochs
  userClaims : w'.distributor.userClaims = w.distributor.userClaims
  rewardPaid : w'.rewardPaid = w.rewardPaid

theorem SameBooks.of_eq (hd : w'.distributor = w.distributor)
    (hp : w'.rewardPaid = w.rewardPaid) : SameBooks w w' :=
  ⟨by rw [hd], by rw [hd], by rw [hd], by rw [hd], hp⟩

/-- What `_addReward` did. -/
structure Funded (w w' : World) (sender token : Address) (amount epoch : ℕ) : Prop where
  moved : w.chain.Moved w'.chain token sender w.distributor.self amount
  rate : ∃ supply, w.totalSupplyAtEpoch epoch = .ok supply ∧ supply ≠ 0 ∧
    w'.distributor.rewardData = update w.distributor.rewardData token
      (update (w.distributor.rewardData token) epoch
        (w.distributor.rewardData token epoch + amount * 10 ^ 20 / supply))
  self : w'.distributor.self = w.distributor.self
  rewardEpochs : w'.distributor.rewardEpochs =
    if World.isAfter (w.distributor.rewardEpochs token) epoch then
      update w.distributor.rewardEpochs token (w.distributor.rewardEpochs token ++ [epoch])
    else w.distributor.rewardEpochs
  userClaims : w'.distributor.userClaims = w.distributor.userClaims
  rewardPaid : w'.rewardPaid = w.rewardPaid

/-- What `_getReward` did when there was something to claim. -/
structure Paid (w w' : World) (account token : Address) (n index : ℕ) : Prop where
  pos : 0 < n
  moved : w.chain.Moved w'.chain token w.distributor.self account n
  distributor : w'.distributor = (w.setUserClaims token account index).distributor
  rewardPaid : w'.rewardPaid = ⟨account, token, n, index⟩ :: w.rewardPaid

/-- What the calls do. -/
inductive Effect (w w' : World) (sender : Address) (c : Call) : Prop
  | locker {d : Locker.Call} (call : Locker.exec w.chain sender d = .ok w'.chain)
      (same : SameBooks w w')
  | settings (chain : w'.chain = w.chain) (same : SameBooks w w')
  | fund {w₁ : World} {token : Address} {amount epoch : ℕ}
      (checkpoint : w.checkpointEpoch = .ok w₁) (le : epoch ≤ w₁.latest)
      (later : epoch = w₁.latest ∨ World.isAfter (w₁.distributor.rewardEpochs token) epoch = true)
      (done : Funded w₁ w' sender token amount epoch)
  | claim {account token : Address} {start n index : ℕ}
      (due : w._allClaimableRewards account token start = .ok (n, index))
      (done : Paid w w' account token n index)
      (skip : start = 0 ∨ account = sender ∧ c.skips = some token)
  | forfeit {token : Address} {index : ℕ}
      (lt : index + 1 < (w.distributor.rewardEpochs token).length)
      (le : w.distributor.userClaims token sender ≤ index)
      (done : w' = w.setUserClaims token sender (index + 1)) (skip : c.skips = some token)

theorem addReward_eq_ok {token : Address} {amount epoch : ℕ}
    (h : w._addReward sender token amount epoch = .ok w') :
    Funded w w' sender token amount epoch := by
  unfold World._addReward at h
  obtain ⟨-, h⟩ := require_bind_eq_ok.1 h
  obtain ⟨-, h⟩ := require_bind_eq_ok.1 h
  obtain ⟨t, ht, h⟩ := bind_eq_ok.1 h
  obtain ⟨supply, hsup, h⟩ := bind_eq_ok.1 h
  obtain ⟨x, hx, h⟩ := bind_eq_ok.1 h
  obtain ⟨-, rfl⟩ := umul_eq_ok.1 hx
  obtain ⟨r, hr, h⟩ := bind_eq_ok.1 h
  obtain ⟨hne, rfl⟩ := udiv_eq_ok.1 hr
  obtain ⟨data, hdata, h⟩ := bind_eq_ok.1 h
  obtain ⟨-, rfl⟩ := uadd_eq_ok.1 hdata
  cases h
  obtain ⟨-, hle, hb, -⟩ := Erc20.transferFrom_eq_ok ht
  refine ⟨⟨rfl, rfl, hle, fun k => ?_⟩, ⟨supply, hsup, hne, rfl⟩, rfl, rfl, rfl, rfl⟩
  rw [Locker.World.balance_update, hb]
  rfl

theorem getReward_eq_ok {account token : Address} {start : ℕ}
    (h : w._getReward account token start = .ok w') :
    ∃ r, w._allClaimableRewards account token start = .ok r ∧
      (r.1 = 0 ∧ w' = w ∨ Paid w w' account token r.1 r.2) := by
  unfold World._getReward at h
  obtain ⟨r, hr, h⟩ := bind_eq_ok.1 h
  refine ⟨r, hr, ?_⟩
  split_ifs at h with hpos
  · obtain ⟨t, ht, h⟩ := bind_eq_ok.1 h
    cases h
    obtain ⟨-, -, hle, hb, -, -⟩ := Erc20.transfer_eq_ok ht
    refine .inr ⟨hpos, ⟨rfl, rfl, hle, fun k => ?_⟩, rfl, rfl⟩
    have hbal := Locker.World.balance_update w.chain token t k
    rw [hb] at hbal
    exact hbal
  · cases h
    exact .inl ⟨Nat.eq_zero_of_not_pos hpos, rfl⟩

theorem Effect.of_getReward {account token : Address} {start : ℕ}
    (h : w._getReward account token start = .ok w')
    (skip : start = 0 ∨ account = sender ∧ c.skips = some token) : Effect w w' sender c := by
  obtain ⟨⟨n, index⟩, hr, ⟨-, rfl⟩ | hp⟩ := getReward_eq_ok h
  · exact .settings rfl (.of_eq rfl rfl)
  · exact .claim hr hp skip

theorem checkpointEpoch_eq_ok (h : w.checkpointEpoch = .ok w₁) :
    w.chain.checkpointEpoch = .ok w₁.chain ∧ w₁.distributor = w.distributor ∧
      w₁.rewardPaid = w.rewardPaid := by
  obtain ⟨chain, hc, h⟩ := bind_eq_ok.1 h
  cases h
  exact ⟨hc, rfl, rfl⟩

/-- Every call has one of the effects. -/
theorem exec_effect (h : exec w sender c = .ok w') : Effect w w' sender c := by
  cases c with
  | locker d =>
    obtain ⟨chain, hx, h⟩ := bind_eq_ok.1 h
    cases h
    exact .locker hx (.of_eq rfl rfl)
  | modifyWhitelist a b =>
    obtain ⟨-, -, h⟩ := bind_eq_ok.1 h
    cases h
    exact .settings rfl ⟨rfl, rfl, rfl, rfl, rfl⟩
  | transferOwnership a =>
    obtain ⟨-, -, h⟩ := bind_eq_ok.1 h
    obtain ⟨-, h⟩ := require_bind_eq_ok.1 h
    cases h
    exact .settings rfl ⟨rfl, rfl, rfl, rfl, rfl⟩
  | renounceOwnership =>
    obtain ⟨-, -, h⟩ := bind_eq_ok.1 h
    cases h
    exact .settings rfl ⟨rfl, rfl, rfl, rfl, rfl⟩
  | addReward t n =>
    obtain ⟨w₁, h₁, h⟩ := bind_eq_ok.1 h
    obtain ⟨m, hm, h⟩ := bind_eq_ok.1 h
    obtain ⟨rfl, -⟩ := World.latestEpoch_eq_ok hm
    exact .fund h₁ le_rfl (.inl rfl) (addReward_eq_ok h)
  | addRewardToEpoch t n e =>
    obtain ⟨w₁, h₁, h⟩ := bind_eq_ok.1 h
    obtain ⟨m, hm, h⟩ := bind_eq_ok.1 h
    obtain ⟨rfl, -⟩ := World.latestEpoch_eq_ok hm
    obtain ⟨hle, h⟩ := require_bind_eq_ok.1 h
    split_ifs at h with he
    · exact .fund h₁ le_rfl (.inl rfl) (addReward_eq_ok h)
    · obtain ⟨hafter, h⟩ := require_bind_eq_ok.1 h
      exact .fund h₁ hle (.inr hafter) (addReward_eq_ok h)
  | getReward a t => exact .of_getReward h (.inl rfl)
  | getRewardFrom t i =>
    refine .of_getReward h ?_
    rcases Nat.eq_zero_or_pos i with hi | hi
    · exact .inl hi
    · exact .inr ⟨rfl, if_neg hi.ne'⟩
  | forfeitRewards t i =>
    obtain ⟨past, hpast, h₁⟩ := bind_eq_ok.1 h
    obtain ⟨htrue, h₂⟩ := require_bind_eq_ok.1 h₁
    rw [htrue] at hpast
    obtain ⟨hle, h⟩ := require_bind_eq_ok.1 h₂
    obtain ⟨j, hj, h⟩ := bind_eq_ok.1 h
    obtain ⟨-, rfl⟩ := uadd_eq_ok.1 hj
    cases h
    refine .forfeit ?_ hle rfl rfl
    unfold World.isPast at hpast
    split_ifs at hpast
    · obtain ⟨l, hl, hpast⟩ := bind_eq_ok.1 hpast
      obtain ⟨-, rfl⟩ := usub_eq_ok.1 hl
      simp only [Except.ok.injEq, decide_eq_true_eq] at hpast
      exact Nat.lt_sub_iff_add_lt.1 hpast
    · simp at hpast

/-- No call lowers a balance of an account other than its sender and the contracts. -/
theorem exec_balance_le {a : Address} (hs : a ≠ sender) (hl : a ≠ w.chain.locker.config.self)
    (hd : a ≠ w.distributor.self) (h : exec w sender c = .ok w') (k : Address) :
    w.chain.balance k a ≤ w'.chain.balance k a := by
  cases exec_effect h with
  | locker call same => exact Locker.exec_balance_le hs hl call k
  | settings chain same => rw [chain]
  | fund checkpoint le later done =>
    obtain ⟨hck, -, -⟩ := checkpointEpoch_eq_ok checkpoint
    obtain ⟨l, -, hck⟩ := bind_eq_ok.1 hck
    have hb := done.moved.balance_le hs k
    rw [← Except.ok.inj hck] at hb
    exact hb
  | claim due done skip => exact done.moved.balance_le hd k
  | forfeit lt le done skip =>
    rw [done]
    exact le_rfl

/-! ## The run of the locker -/

/-- The two contracts are different, and the world of the locker is one of its runs. -/
structure Joint (w : World) : Prop where
  chain : ∃ log, Locker.Reachable log w.chain
  self_ne : w.distributor.self ≠ 0
  locker_ne : w.distributor.self ≠ w.chain.locker.config.self

theorem Deployed.joint (h : Deployed w) : Joint w :=
  ⟨h.chain, h.self_ne, h.locker_ne⟩

/-- A movement of tokens that are not the locker's. -/
theorem steps_of_moved {x y : Locker.World} {token src dst : Address} {n : ℕ}
    (h : x.Moved y token src dst n) (hsrc : x.locker.config.self ≠ src) : Locker.Steps x [] y :=
  .elsewhere .refl ⟨h.locker, h.now.ge, fun k => h.balance_le hsrc k⟩

/-- For the locker, a call of the distributor is a checkpoint of the epoch at most. -/
theorem Joint.effect_steps (h : Joint w) (hc : IsCaller w sender) (he : Effect w w' sender c) :
    (∃ log, Locker.Steps w.chain log w'.chain) ∧
      w'.distributor.self = w.distributor.self := by
  cases he with
  | locker call same => exact ⟨⟨_, .call .refl hc.1 call⟩, same.self⟩
  | settings chain same => exact ⟨⟨[], chain ▸ .refl⟩, same.self⟩
  | fund checkpoint le later done =>
    obtain ⟨hck, hd, -⟩ := checkpointEpoch_eq_ok checkpoint
    have hs₁ : Locker.Steps w.chain _ _ :=
      .call .refl ⟨h.self_ne, h.locker_ne⟩ (c := .checkpointEpoch) hck
    have hs₂ := steps_of_moved done.moved (hs₁.self_eq ▸ hc.1.2.symm)
    exact ⟨⟨_, hs₁.trans hs₂⟩, done.self.trans (by rw [hd])⟩
  | claim due done skip =>
    exact ⟨⟨[], steps_of_moved done.moved h.locker_ne.symm⟩, by rw [done.distributor]; rfl⟩
  | forfeit lt le done skip =>
    subst done
    exact ⟨⟨[], .refl⟩, rfl⟩

theorem Joint.of_steps (h : Joint w) {log : List Locker.Event}
    (hs : Locker.Steps w.chain log w'.chain) (hself : w'.distributor.self = w.distributor.self) :
    Joint w' := by
  obtain ⟨log₀, w₀, h₀, hs₀⟩ := h.chain
  refine ⟨⟨_, w₀, h₀, hs₀.trans hs⟩, hself ▸ h.self_ne, ?_⟩
  rw [hself, hs.self_eq]
  exact h.locker_ne

theorem Elsewhere.steps (h : Elsewhere w w') : Locker.Steps w.chain [] w'.chain :=
  .elsewhere .refl h.chain

/-- The run of the locker in a run of both, in which the distributor keeps its address. -/
theorem Joint.steps (h : Joint w) {log : List Event} (hs : Steps w log w') :
    (∃ log', Locker.Steps w.chain log' w'.chain) ∧
      w'.distributor.self = w.distributor.self := by
  induction hs with
  | refl => exact ⟨⟨[], .refl⟩, rfl⟩
  | elsewhere _ he ih =>
    obtain ⟨⟨log', hs⟩, hself⟩ := ih
    exact ⟨⟨_, hs.trans he.steps⟩, by rw [he.distributor, hself]⟩
  | call _ hc hx ih =>
    obtain ⟨⟨log', hs⟩, hself⟩ := ih
    obtain ⟨⟨log'', hs'⟩, hself'⟩ := (h.of_steps hs hself).effect_steps hc (exec_effect hx)
    exact ⟨⟨_, hs.trans hs'⟩, hself'.trans hself⟩

theorem Reachable.joint {log : List Event} (h : Reachable log w) : Joint w := by
  obtain ⟨w₀, h₀, hs⟩ := h
  obtain ⟨⟨_, hs'⟩, hself⟩ := h₀.joint.steps hs
  exact h₀.joint.of_steps hs' hself

/-- The latest epoch does not go back. -/
theorem latest_mono {log : List Locker.Event} (hs : Locker.Steps w.chain log w'.chain) :
    w.latest ≤ w'.latest :=
  Nat.sub_le_sub_right hs.length_le 1

/-! ## Indices -/

/-- The epochs of a token, all that have a reward, none of which is claimed before it is locked
in. -/
structure Indexed (w : World) (token : Address) : Prop where
  listed : ∀ e, w.distributor.rewardData token e ≠ 0 → e ∈ w.distributor.rewardEpochs token
  sorted : (w.distributor.rewardEpochs token).Pairwise (· < ·)
  le_latest : ∀ e ∈ w.distributor.rewardEpochs token, e ≤ w.latest
  claims : ∀ u, w.distributor.userClaims token u ≤
    (due w.latest (w.distributor.rewardEpochs token)).length

variable {token : Address}

/-- In an increasing list the last entry decides. -/
theorem isAfter_iff {es : List ℕ} {e : ℕ} (hs : es.Pairwise (· < ·)) :
    World.isAfter es e = true ↔ ∀ x ∈ es, x < e := by
  rcases List.eq_nil_or_concat' es with rfl | ⟨xs, y, rfl⟩
  · simp [World.isAfter]
  · simp only [World.isAfter, List.getLast?_concat, decide_eq_true_eq]
    constructor
    · intro hy x hx
      rcases List.mem_append.1 hx with hx | hx
      · exact ((List.pairwise_append.1 hs).2.2 x hx y (List.mem_singleton_self y)).trans hy
      · rwa [List.mem_singleton.1 hx]
    · exact fun h => h y (by simp)

theorem Indexed.same (h : Indexed w token) (hsame : SameBooks w w') (hle : w.latest ≤ w'.latest) :
    Indexed w' token := by
  refine ⟨?_, ?_, ?_, fun u => ?_⟩
  · rw [hsame.rewardEpochs, hsame.rewardData]
    exact h.listed
  · rw [hsame.rewardEpochs]
    exact h.sorted
  · rw [hsame.rewardEpochs]
    exact fun e he => (h.le_latest e he).trans hle
  · rw [hsame.rewardEpochs, hsame.userClaims]
    exact (h.claims u).trans (length_due_mono hle)

/-- The epochs after one of them was funded : it is new, or it was there. -/
theorem Funded.epochs_eq {t : Address} {n e : ℕ} (h : Funded w w' sender t n e)
    (hi : Indexed w t) (hlater : e = w.latest ∨ World.isAfter (w.distributor.rewardEpochs t) e) :
    (∀ x ∈ w.distributor.rewardEpochs t, x < e) ∧
        w'.distributor.rewardEpochs =
          update w.distributor.rewardEpochs t (w.distributor.rewardEpochs t ++ [e]) ∨
      e ∈ w.distributor.rewardEpochs t ∧ e = w.latest ∧
        w'.distributor.rewardEpochs = w.distributor.rewardEpochs := by
  have heq := h.rewardEpochs
  by_cases hafter : World.isAfter (w.distributor.rewardEpochs t) e = true
  · rw [if_pos hafter] at heq
    exact .inl ⟨(isAfter_iff hi.sorted).1 hafter, heq⟩
  · rw [if_neg hafter] at heq
    have hlast := hlater.resolve_right hafter
    rw [isAfter_iff hi.sorted] at hafter
    push Not at hafter
    obtain ⟨x, hx, hle⟩ := hafter
    have hxe : x = e := le_antisymm (hlast ▸ hi.le_latest x hx) hle
    exact .inr ⟨hxe ▸ hx, hlast, heq⟩

theorem Funded.latest_eq {t : Address} {n e : ℕ} (h : Funded w w' sender t n e) :
    w'.latest = w.latest := by
  unfold World.latest
  rw [h.moved.locker]

/-- The epoch that is funded is listed, and no epoch is dropped. -/
theorem Funded.mem_epochs {t : Address} {n e : ℕ} (h : Funded w w' sender t n e)
    (hi : Indexed w t) (hlater : e = w.latest ∨ World.isAfter (w.distributor.rewardEpochs t) e) :
    e ∈ w'.distributor.rewardEpochs t ∧
      ∀ k, ∀ x ∈ w.distributor.rewardEpochs k, x ∈ w'.distributor.rewardEpochs k := by
  rcases h.epochs_eq hi hlater with ⟨-, hes⟩ | ⟨hmem, -, hes⟩
  · refine ⟨by rw [hes, update_self]; simp, fun k x hx => ?_⟩
    rw [hes]
    by_cases ht : k = t
    · subst ht
      rw [update_self]
      exact List.mem_append_left _ hx
    · rwa [update_of_ne ht]
  · rw [hes]
    exact ⟨hmem, fun _ _ hx => hx⟩

/-- Every epoch with a reward is still listed. -/
theorem Indexed.listed_fund {t : Address} {n e : ℕ} (h : ∀ t, Indexed w t)
    (hd : Funded w w' sender t n e)
    (hlater : e = w.latest ∨ World.isAfter (w.distributor.rewardEpochs t) e) (k : Address) (x : ℕ)
    (hx : w'.distributor.rewardData k x ≠ 0) : x ∈ w'.distributor.rewardEpochs k := by
  obtain ⟨hmem, hkept⟩ := hd.mem_epochs (h t) hlater
  obtain ⟨_, -, -, hdata⟩ := hd.rate
  rw [hdata] at hx
  by_cases ht : k = t
  · subst ht
    rw [update_self] at hx
    by_cases he : x = e
    · exact he ▸ hmem
    · rw [update_of_ne he] at hx
      exact hkept k x ((h k).listed x hx)
  · rw [update_of_ne ht] at hx
    exact hkept k x ((h k).listed x hx)

theorem Indexed.fund {t : Address} {n e : ℕ} (h : ∀ t, Indexed w t)
    (hd : Funded w w' sender t n e) (hle : e ≤ w.latest)
    (hlater : e = w.latest ∨ World.isAfter (w.distributor.rewardEpochs t) e) :
    Indexed w' token := by
  have hlat := hd.latest_eq
  have hlisted := Indexed.listed_fund h hd hlater token
  rcases hd.epochs_eq (h t) hlater with ⟨hlt, hes⟩ | ⟨-, -, hes⟩
  · by_cases ht : token = t
    · subst ht
      refine ⟨hlisted, ?_, fun x hx => ?_, fun u => ?_⟩
      · rw [hes, update_self, List.pairwise_append]
        refine ⟨(h token).sorted, List.pairwise_singleton _ _, fun x hx y hy => ?_⟩
        rw [List.mem_singleton.1 hy]
        exact hlt x hx
      · rw [hes, update_self] at hx
        rw [hlat]
        rcases List.mem_append.1 hx with hx | hx
        · exact (h token).le_latest x hx
        · rwa [List.mem_singleton.1 hx]
      · rw [hes, update_self, hd.userClaims, hlat]
        exact ((h token).claims u).trans (length_due_append [e])
    · have hsame : w'.distributor.rewardEpochs token = w.distributor.rewardEpochs token := by
        rw [hes, update_of_ne ht]
      exact ⟨hlisted, by rw [hsame]; exact (h token).sorted,
        by rw [hsame, hlat]; exact (h token).le_latest,
        by rw [hsame, hlat, hd.userClaims]; exact (h token).claims⟩
  · exact ⟨hlisted, by rw [hes]; exact (h token).sorted,
      by rw [hes, hlat]; exact (h token).le_latest,
      by rw [hes, hlat, hd.userClaims]; exact (h token).claims⟩

/-- Moving one cursor within what is due. -/
theorem Indexed.setUserClaims {t account : Address} {i : ℕ} (h : Indexed w token)
    (hi : i ≤ (due w.latest (w.distributor.rewardEpochs t)).length) :
    Indexed (w.setUserClaims t account i) token := by
  refine ⟨h.listed, h.sorted, h.le_latest, fun u => ?_⟩
  show update w.distributor.userClaims t _ token u ≤ _
  by_cases ht : token = t
  · subst ht
    rw [update_self]
    by_cases hu : u = account
    · subst hu
      rw [update_self]
      exact hi
    · rw [update_of_ne hu]
      exact h.claims u
  · rw [update_of_ne ht]
    exact h.claims u

/-- All entries but the last are locked in. -/
theorem Indexed.lt_length_due {i : ℕ} (h : Indexed w token)
    (hi : i + 1 < (w.distributor.rewardEpochs token).length) :
    i + 1 ≤ (due w.latest (w.distributor.rewardEpochs token)).length := by
  set es := w.distributor.rewardEpochs token with hes
  have hsorted : es.Pairwise (· < ·) := h.sorted
  have hlast : es[i + 1] ≤ w.latest := h.le_latest _ (List.getElem_mem hi)
  have htake : due w.latest (es.take (i + 1)) = es.take (i + 1) := by
    rw [due, List.filter_eq_self]
    intro e he
    obtain ⟨j, hj, rfl⟩ := List.mem_take_iff_getElem.1 he
    have hlt := List.pairwise_iff_getElem.1 hsorted j (i + 1) (by omega) hi (by omega)
    simpa using hlt.trans_le hlast
  have hlen : (due w.latest (es.take (i + 1))).length ≤
      (due w.latest (es.take (i + 1) ++ es.drop (i + 1))).length := length_due_append _
  rw [List.take_append_drop, htake, List.length_take] at hlen
  omega

/-! ## What is due -/

section Due

variable {u : Address} {m : ℕ}

/-- Entries that are not due are skipped. -/
theorem claimEpochs_of_le : ∀ {es : List ℕ} (_ : ∀ e ∈ es, m ≤ e) (i : ℕ) (r : ℕ × ℕ),
    w.claimEpochs u token m es i r = .ok r
  | [], _, _, _ => rfl
  | e :: es, h, i, r => by
    rw [World.claimEpochs, if_neg (not_lt.2 (h e (by simp)))]
    exact claimEpochs_of_le (fun x hx => h x (by simp [hx])) (i + 1) r

/-- The loop of `_allClaimableRewards` adds up what is due, and stops behind it. -/
theorem claimEpochs_eq_ok {g : ℕ → ℕ} : ∀ {es : List ℕ} {i n : ℕ} {r : ℕ × ℕ},
    es.Pairwise (· < ·) →
    (∀ e ∈ es, ∀ x, w._claimableRewards u token e = .ok x → x = g e) →
    w.claimEpochs u token m es i (n, i) = .ok r →
      r = (n + ((due m es).map g).sum, i + (due m es).length)
  | [], i, n, r, _, _, h => by
    cases h
    rfl
  | e :: es, i, n, r, hs, hg, h => by
    rcases lt_or_ge e m with he | he
    · rw [World.claimEpochs, if_pos he] at h
      obtain ⟨x, hx, h⟩ := bind_eq_ok.1 h
      obtain ⟨y, hy, h⟩ := bind_eq_ok.1 h
      obtain ⟨-, rfl⟩ := uadd_eq_ok.1 hy
      obtain rfl := hg e (by simp) x hx
      rw [claimEpochs_eq_ok (List.Pairwise.of_cons hs) (fun y hy => hg y (by simp [hy])) h,
        due_cons_of_lt he]
      simp only [List.map_cons, List.sum_cons, List.length_cons, Prod.mk.injEq]
      omega
    · have hall : ∀ x ∈ e :: es, m ≤ x := fun x hx => by
        rcases List.mem_cons.1 hx with rfl | hx
        · exact he
        · exact he.trans (List.rel_of_pairwise_cons hs hx).le
      rw [claimEpochs_of_le hall] at h
      cases h
      rw [due_eq_nil hall]
      rfl

/-- What can be claimed is what is due from the cursor and the start index on. If that is
something, the cursor moves to the end of what is due. -/
theorem allClaimable_eq_ok {g : ℕ → ℕ} {start : ℕ} {r : ℕ × ℕ} (hi : Indexed w token)
    (hg : ∀ e ∈ w.distributor.rewardEpochs token, ∀ x,
      w._claimableRewards u token e = .ok x → x = g e)
    (h : w._allClaimableRewards u token start = .ok r) :
    ∃ k, w.distributor.userClaims token u ≤ k ∧ (start = 0 → k = w.distributor.userClaims token u) ∧
      r.1 = (((due w.latest (w.distributor.rewardEpochs token)).drop k).map g).sum ∧
      (0 < r.1 → r.2 = (due w.latest (w.distributor.rewardEpochs token)).length) := by
  unfold World._allClaimableRewards at h
  obtain ⟨m, hm, h⟩ := bind_eq_ok.1 h
  obtain ⟨rfl, -⟩ := World.latestEpoch_eq_ok hm
  dsimp only at h
  set es := w.distributor.rewardEpochs token with hes
  set c := w.distributor.userClaims token u with hc
  set k := if c < start then start else c with hk
  refine ⟨k, ?_, fun h0 => ?_, ?_⟩
  · rw [hk]
    split_ifs with hlt
    · exact hlt.le
    · exact le_rfl
  · rw [hk, h0, if_neg (Nat.not_lt_zero c)]
  split_ifs at h with hlen
  · cases h
    have hnil : (due w.latest es).drop k = [] :=
      List.drop_eq_nil_of_le (length_due_le_length.trans hlen)
    rw [hnil]
    exact ⟨rfl, fun h0 => absurd h0 (lt_irrefl 0)⟩
  · have hsorted : es.Pairwise (· < ·) := hi.sorted
    have hr := claimEpochs_eq_ok hsorted.drop (fun e he => hg e (List.mem_of_mem_drop he)) h
    rw [due_drop hsorted, Nat.zero_add] at hr
    rw [hr]
    refine ⟨rfl, fun hpos => ?_⟩
    have hne : (due w.latest es).drop k ≠ [] := by
      intro hnil
      simp [hnil] at hpos
    have hlt : k < (due w.latest es).length := by
      by_contra hge
      exact hne (List.drop_eq_nil_of_le (not_lt.1 hge))
    show k + ((due w.latest es).drop k).length = _
    rw [List.length_drop]
    omega

end Due

/-- A claim moves a cursor to the end of what is due. -/
theorem Paid.index_eq {account t : Address} {start n index : ℕ} (hp : Paid w w' account t n index)
    (hi : Indexed w t) (hdue : w._allClaimableRewards account t start = .ok (n, index)) :
    index = (due w.latest (w.distributor.rewardEpochs t)).length := by
  obtain ⟨k, -, -, -, hidx⟩ := allClaimable_eq_ok
    (g := fun e => (w._claimableRewards account t e).toOption.getD 0) hi
    (fun e _ x hx => by simp [hx, Except.toOption]) hdue
  exact hidx hp.pos

theorem Paid.latest_eq {account t : Address} {n index : ℕ} (hp : Paid w w' account t n index) :
    w'.latest = w.latest := by
  unfold World.latest
  rw [hp.moved.locker]

theorem Indexed.of_distributor (h : Indexed w token) (hd : w'.distributor = w.distributor)
    (hlat : w'.latest = w.latest) : Indexed w' token := by
  refine ⟨?_, ?_, ?_, ?_⟩
  · rw [hd]
    exact h.listed
  · rw [hd]
    exact h.sorted
  · rw [hd, hlat]
    exact h.le_latest
  · rw [hd, hlat]
    exact h.claims

/-! ## Runs -/

/-- The indices of all tokens. -/
def AllIndexed (w : World) : Prop :=
  ∀ token, Indexed w token

theorem AllIndexed.checkpoint (hj : Joint w) (h : AllIndexed w)
    (hck : w.checkpointEpoch = .ok w₁) : AllIndexed w₁ := by
  obtain ⟨hx, hd, hp⟩ := checkpointEpoch_eq_ok hck
  have hs : Locker.Steps w.chain _ w₁.chain :=
    .call .refl ⟨hj.self_ne, hj.locker_ne⟩ (c := .checkpointEpoch) hx
  exact fun token => (h token).same (.of_eq hd hp) (latest_mono hs)

theorem AllIndexed.effect (hj : Joint w) (hc : IsCaller w sender) (h : AllIndexed w)
    (he : Effect w w' sender c) : AllIndexed w' := by
  intro token
  cases he with
  | locker call same => exact (h token).same same (latest_mono (.call .refl hc.1 call))
  | settings chain same => exact (h token).same same (by rw [World.latest, World.latest, chain])
  | fund checkpoint le later done =>
    exact .fund (h.checkpoint hj checkpoint) done le later
  | claim hdue done skip =>
    rename_i account t start n index
    rw [done.index_eq (h t) hdue] at done
    have hset : Indexed (w.setUserClaims t account _) token := (h token).setUserClaims le_rfl
    exact hset.of_distributor done.distributor done.latest_eq
  | forfeit lt le done skip =>
    rename_i t index
    subst done
    exact (h token).setUserClaims ((h t).lt_length_due lt)

theorem AllIndexed.elsewhere (h : AllIndexed w) (he : Elsewhere w w') : AllIndexed w' :=
  fun token => (h token).same (.of_eq he.distributor he.rewardPaid) (latest_mono he.steps)

theorem Deployed.allIndexed (h : Deployed w) : AllIndexed w := by
  intro token
  have hes : w.distributor.rewardEpochs token = [] := by rw [h.distributor]
  have hdata : w.distributor.rewardData token = fun _ => 0 := by rw [h.distributor]
  refine ⟨fun e he => absurd (congrFun hdata e) he, by rw [hes]; exact List.Pairwise.nil,
    by rw [hes]; simp, fun u => ?_⟩
  have hcl : w.distributor.userClaims token u = 0 := by rw [h.distributor]
  rw [hcl]
  exact Nat.zero_le _

theorem AllIndexed.steps (hj : Joint w) (h : AllIndexed w) {log : List Event}
    (hs : Steps w log w') : AllIndexed w' := by
  induction hs with
  | refl => exact h
  | elsewhere _ he ih => exact ih.elsewhere he
  | call hs hc hx ih =>
    obtain ⟨⟨_, hs'⟩, hself⟩ := hj.steps hs
    exact ih.effect (hj.of_steps hs' hself) hc (exec_effect hx)

theorem Reachable.allIndexed {log : List Event} (h : Reachable log w) : AllIndexed w := by
  obtain ⟨w₀, h₀, hs⟩ := h
  exact h₀.allIndexed.steps h₀.joint hs

/-! ## The reward of an epoch that is locked in -/

/-- An epoch of the token that is locked in. -/
def LockedIn (w : World) (token : Address) (e : ℕ) : Prop :=
  e ∈ w.distributor.rewardEpochs token ∧ e < w.latest

/-- A call changes no reward of an epoch that is locked in. -/
theorem LockedIn.effect {e : ℕ} (hj : Joint w) (hc : IsCaller w sender) (hi : AllIndexed w)
    (h : LockedIn w token e) (he : Effect w w' sender c) :
    LockedIn w' token e ∧
      w'.distributor.rewardData token e = w.distributor.rewardData token e := by
  obtain ⟨⟨_, hs⟩, -⟩ := hj.effect_steps hc he
  have hlat := latest_mono hs
  cases he with
  | locker call same =>
    exact ⟨⟨by rw [same.rewardEpochs]; exact h.1, h.2.trans_le hlat⟩, by rw [same.rewardData]⟩
  | settings chain same =>
    exact ⟨⟨by rw [same.rewardEpochs]; exact h.1, h.2.trans_le hlat⟩, by rw [same.rewardData]⟩
  | fund checkpoint le later done =>
    rename_i w₁ t n e₀
    obtain ⟨hx, hd, hp⟩ := checkpointEpoch_eq_ok checkpoint
    have hlat₁ : w.latest ≤ w₁.latest :=
      latest_mono (.call .refl ⟨hj.self_ne, hj.locker_ne⟩ (c := .checkpointEpoch) hx)
    have hi₁ := hi.checkpoint hj checkpoint
    have hmem : e ∈ w₁.distributor.rewardEpochs token := by rw [hd]; exact h.1
    obtain ⟨_, -, -, hdata⟩ := done.rate
    -- the epoch is not the one that is funded
    have hne : token = t → e ≠ e₀ := by
      rintro rfl rfl
      rcases done.epochs_eq (hi₁ token) later with ⟨hlt, -⟩ | ⟨-, hlast, -⟩
      · exact lt_irrefl _ (hlt e hmem)
      · have := h.2
        omega
    refine ⟨⟨?_, h.2.trans_le hlat⟩, ?_⟩
    · exact (done.mem_epochs (hi₁ t) later).2 _ e hmem
    · rw [hdata]
      by_cases ht : token = t
      · subst ht
        rw [update_self, update_of_ne (hne rfl), hd]
      · rw [update_of_ne ht, hd]
  | claim due done skip =>
    refine ⟨⟨?_, h.2.trans_le hlat⟩, ?_⟩
    · rw [done.distributor]
      exact h.1
    · rw [done.distributor]
      rfl
  | forfeit lt le done skip =>
    subst done
    exact ⟨h, rfl⟩

/-- The reward of an epoch that is locked in is final. -/
theorem LockedIn.steps {e : ℕ} {log : List Event} (hj : Joint w) (hi : AllIndexed w)
    (h : LockedIn w token e) (hs : Steps w log w') :
    LockedIn w' token e ∧
      w'.distributor.rewardData token e = w.distributor.rewardData token e := by
  induction hs with
  | refl => exact ⟨h, rfl⟩
  | elsewhere _ he ih =>
    obtain ⟨⟨hmem, hlt⟩, hdata⟩ := ih
    exact ⟨⟨by rw [he.distributor]; exact hmem, hlt.trans_le (latest_mono he.steps)⟩,
      by rw [he.distributor, hdata]⟩
  | call hs hc hx ih =>
    obtain ⟨hin, hdata⟩ := ih
    obtain ⟨⟨_, hs'⟩, hself⟩ := hj.steps hs
    obtain ⟨hin', hdata'⟩ :=
      hin.effect (hj.of_steps hs' hself) hc (hi.steps hj hs) (exec_effect hx)
    exact ⟨hin', hdata'.trans hdata⟩

end Aura.Rewards
