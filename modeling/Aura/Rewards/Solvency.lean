import Aura.Locker.Reverts
import Aura.ProRata
import Aura.Rewards.Entries

/-!
# Rewards : solvency of ExtraRewardsDistributor

What the locker answers about an epoch that has begun it answers ever after, so all worlds
of a run agree on the balances `B` and the supplies `S` of its epochs (`Views`). For every
entry the tokens that were added cover its reward times the supply, and what was added and
not claimed is still there (`Books`) : so the distributor holds what it owes.
-/

open Evm Function Finset

namespace Aura.Rewards

open Cursor
open Locker (Fits)

variable {w w' w₁ : World} {sender token : Address} {c : Call} {B : ℕ → Address → ℕ} {S : ℕ → ℕ}

/-! ## What the locker answers -/

/-- What the locker answers about an epoch with a supply. -/
structure Views (B : ℕ → Address → ℕ) (S : ℕ → ℕ) (w : World) : Prop where
  supply : ∀ e s, w.totalSupplyAtEpoch e = .ok s → s = S e
  balance : ∀ e s, w.totalSupplyAtEpoch e = .ok s → ∀ u, w.balanceAtEpochOf e u = .ok (B e u)
  sum : ∀ e s, w.totalSupplyAtEpoch e = .ok s → ∑ u, B e u = S e

theorem exists_views {log : List Locker.Event} (h : Locker.Reachable log w.chain)
    (hfit : Fits w.chain.now) : ∃ B S, Views B S w := by
  obtain ⟨first, hinv⟩ := h.ledgerInv
  obtain ⟨n, hd⟩ := hinv.dated hfit
  let B (e : ℕ) (u : Address) : ℕ :=
    (Locker.ballot log w.chain.locker.ledger.userLocks).active u (first + e)
  have hviews : ∀ e s, w.totalSupplyAtEpoch e = .ok s →
      (∀ u, w.balanceAtEpochOf e u = .ok (B e u)) ∧ s = ∑ u, B e u := by
    intro e s hs
    obtain ⟨E, hE, hs'⟩ := bind_eq_ok.1 (hs : Locker.totalSupplyAtEpoch _ _ e = .ok s)
    obtain ⟨hlt, -⟩ := require_bind_eq_ok.1 hs'
    obtain rfl := hd.epochStartOf_eq hE
    obtain ⟨hb, ht⟩ := hd.epoch_views log hE hlt
    have hs : Locker.totalSupplyAtEpoch _ _ e = .ok s := hs
    rw [ht] at hs
    split_ifs at hs with hk
    exact ⟨fun u => (hb u).trans (if_pos hk), (Except.ok.inj hs).symm⟩
  exact ⟨B, fun e => ∑ u, B e u, ⟨fun e s hs => (hviews e s hs).2,
    fun e s hs => (hviews e s hs).1, fun _ _ _ => rfl⟩⟩

/-- As long as unlock times fit in `uint32`, an epoch that has a supply keeps it. -/
theorem Joint.views_eq (hj : Joint w) {log : List Locker.Event}
    (hs : Locker.Steps w.chain log w'.chain) (hfit : Fits w'.chain.now) {e s : ℕ}
    (h : w.totalSupplyAtEpoch e = .ok s) :
    w'.totalSupplyAtEpoch e = .ok s ∧ ∀ u, w'.balanceAtEpochOf e u = w.balanceAtEpochOf e u := by
  obtain ⟨log₀, hr⟩ := hj.chain
  obtain ⟨E, hE, h'⟩ := bind_eq_ok.1 (h : Locker.totalSupplyAtEpoch _ _ e = .ok s)
  obtain ⟨hlt, -⟩ := require_bind_eq_ok.1 h'
  obtain ⟨hb, ht⟩ := (Locker.history_immutable hr hs hfit).1 e E hE hlt
  exact ⟨ht.trans h, hb⟩

/-- The worlds of a run agree. -/
theorem Views.back (h : Views B S w') (hj : Joint w) {log : List Locker.Event}
    (hs : Locker.Steps w.chain log w'.chain) (hfit : Fits w'.chain.now) : Views B S w := by
  refine ⟨fun e s hes => ?_, fun e s hes u => ?_, fun e s hes => ?_⟩
  · exact h.supply e s (hj.views_eq hs hfit hes).1
  · obtain ⟨ht, hb⟩ := hj.views_eq hs hfit hes
    exact (hb u).symm.trans (h.balance e s ht u)
  · exact h.sum e s (hj.views_eq hs hfit hes).1

/-! ## The books of a token -/

/-- What an account gets for an epoch. -/
def share (B : ℕ → Address → ℕ) (w : World) (token u : Address) (e : ℕ) : ℕ :=
  B e u * w.distributor.rewardData token e / 10 ^ 20

/-- The shares that an account has claimed or given up. -/
def read (B : ℕ → Address → ℕ) (w : World) (token u : Address) : ℕ :=
  (((w.distributor.rewardEpochs token).take (w.distributor.userClaims token u)).map
    (share B w token u)).sum

/-- The shares that an account has not claimed. -/
def owed (B : ℕ → Address → ℕ) (w : World) (token u : Address) : ℕ :=
  (((w.distributor.rewardEpochs token).drop (w.distributor.userClaims token u)).map
    (share B w token u)).sum

/-- The tokens that the distributor holds. -/
def World.held (w : World) (token : Address) : ℕ :=
  w.chain.balance token w.distributor.self

/-- What was added for each entry covers its reward, and is held or was claimed. -/
structure Books (B : ℕ → Address → ℕ) (S : ℕ → ℕ) (token : Address) (w : World) : Prop where
  known : ∀ e ∈ w.distributor.rewardEpochs token, w.totalSupplyAtEpoch e = .ok (S e)
  unfunded : ∀ e, e ∉ w.distributor.rewardEpochs token → w.distributor.rewardData token e = 0
  funds : ∃ F : ℕ → ℕ, (∀ e, w.distributor.rewardData token e * S e ≤ F e * 10 ^ 20) ∧
    ((w.distributor.rewardEpochs token).map F).sum ≤ w.held token + ∑ u, read B w token u

/-- The shares of an entry are covered by what was added for it. -/
theorem sum_share_le {F : ℕ → ℕ} {e : ℕ} (hsum : ∑ u, B e u = S e)
    (hF : w.distributor.rewardData token e * S e ≤ F e * 10 ^ 20) :
    ∑ u, share B w token u e ≤ F e := by
  have hportion : ∀ u, share B w token u e =
      ProRata.portion (w.distributor.rewardData token e) (10 ^ 20) (B e u) := fun u => by
    rw [share, ProRata.portion, Nat.mul_comm]
  simp only [hportion]
  exact ProRata.sum_portion_finset_le_of univ (B e) (by norm_num) (hsum ▸ hF)

/-- The distributor holds what it owes. -/
theorem Books.owed_le (h : Books B S token w) (hv : Views B S w) :
    ∑ u, owed B w token u ≤ w.held token := by
  obtain ⟨F, hF, hfunds⟩ := h.funds
  exact sum_drop_le (fun e he => sum_share_le (hv.sum e _ (h.known e he)) (hF e)) hfunds

theorem share_congr
    (h : w'.distributor.rewardData token = w.distributor.rewardData token) (u : Address) :
    share B w' token u = share B w token u := by
  funext e
  rw [share, share, h]

/-- What is read of the same entries. -/
theorem read_congr (hdata : w'.distributor.rewardData token = w.distributor.rewardData token)
    (hes : w'.distributor.rewardEpochs token = w.distributor.rewardEpochs token) (u : Address) :
    read B w' token u = (((w.distributor.rewardEpochs token).take
      (w'.distributor.userClaims token u)).map (share B w token u)).sum := by
  rw [read, hes, share_congr hdata]

/-- The same entries, and what was held or read is held or read. -/
theorem Books.of_eq (h : Books B S token w)
    (hdata : w'.distributor.rewardData token = w.distributor.rewardData token)
    (hes : w'.distributor.rewardEpochs token = w.distributor.rewardEpochs token)
    (hknown : ∀ e ∈ w.distributor.rewardEpochs token, w'.totalSupplyAtEpoch e = .ok (S e))
    (hle : w.held token + ∑ u, read B w token u ≤ w'.held token + ∑ u, read B w' token u) :
    Books B S token w' := by
  obtain ⟨F, hF, hfunds⟩ := h.funds
  refine ⟨?_, ?_, F, ?_, ?_⟩
  · rwa [hes]
  · rw [hes, hdata]
    exact h.unfunded
  · rwa [hdata]
  · rw [hes]
    exact hfunds.trans hle

theorem SameBooks.read_eq (h : SameBooks w w') (u : Address) :
    read B w' token u = read B w token u := by
  have hdata : w'.distributor.rewardData token = w.distributor.rewardData token := by
    rw [h.rewardData]
  have hes : w'.distributor.rewardEpochs token = w.distributor.rewardEpochs token := by
    rw [h.rewardEpochs]
  rw [read_congr hdata hes, h.userClaims]
  rfl

/-- The distributor has the same books and holds no less. -/
theorem Books.same (h : Books B S token w) (hsame : SameBooks w w') (hj : Joint w)
    {log : List Locker.Event} (hs : Locker.Steps w.chain log w'.chain) (hfit : Fits w'.chain.now)
    (hle : w.held token ≤ w'.held token) : Books B S token w' := by
  have hdata : w'.distributor.rewardData token = w.distributor.rewardData token := by
    rw [hsame.rewardData]
  have hes : w'.distributor.rewardEpochs token = w.distributor.rewardEpochs token := by
    rw [hsame.rewardEpochs]
  refine h.of_eq hdata hes (fun e he => (hj.views_eq hs hfit (h.known e he)).1) ?_
  simp only [hsame.read_eq]
  exact Nat.add_le_add_right hle _

/-- What is read after a cursor moved. -/
theorem read_setUserClaims {t account u : Address} {i : ℕ}
    (hd : w'.distributor = (w.setUserClaims t account i).distributor) :
    read B w' token u = if token = t ∧ u = account then
      (((w.distributor.rewardEpochs token).take i).map (share B w token u)).sum
      else read B w token u := by
  have hdata : w'.distributor.rewardData token = w.distributor.rewardData token := by
    rw [hd]
    rfl
  have hes : w'.distributor.rewardEpochs token = w.distributor.rewardEpochs token := by
    rw [hd]
    rfl
  have hclaims : w'.distributor.userClaims = update w.distributor.userClaims t
      (update (w.distributor.userClaims t) account i) := by
    rw [hd]
    rfl
  rw [read_congr hdata hes, hclaims]
  by_cases ht : token = t
  · subst ht
    rw [update_self]
    by_cases hu : u = account
    · subst hu
      rw [update_self, if_pos ⟨rfl, rfl⟩]
    · rw [update_of_ne hu, if_neg fun h => hu h.2]
      rfl
  · rw [update_of_ne ht, if_neg fun h => ht h.1]
    rfl

/-- A cursor moves on, and at most the shares it passes are paid. -/
theorem Books.advance {t account : Address} {i n : ℕ} (h : Books B S token w)
    (hd : w'.distributor = (w.setUserClaims t account i).distributor)
    (hsup : ∀ e, w'.totalSupplyAtEpoch e = w.totalSupplyAtEpoch e)
    (hbal : w.held token ≤ w'.held token + if token = t then n else 0)
    (hread : read B w t account + n ≤
      (((w.distributor.rewardEpochs t).take i).map (share B w t account)).sum) :
    Books B S token w' := by
  have hdata : w'.distributor.rewardData token = w.distributor.rewardData token := by
    rw [hd]
    rfl
  have hes : w'.distributor.rewardEpochs token = w.distributor.rewardEpochs token := by
    rw [hd]
    rfl
  refine h.of_eq hdata hes (fun e he => (hsup e).trans (h.known e he)) ?_
  by_cases ht : token = t
  · subst ht
    rw [if_pos rfl] at hbal
    have hsum : ∑ u, read B w token u + n ≤ ∑ u, read B w' token u := by
      refine sum_add_le account ?_ fun u hu => ?_
      · rw [read_setUserClaims hd, if_pos ⟨rfl, rfl⟩]
        exact hread
      · rw [read_setUserClaims hd, if_neg fun hc => hu hc.2]
    omega
  · rw [if_neg ht, Nat.add_zero] at hbal
    have hsum : ∑ u, read B w' token u = ∑ u, read B w token u := sum_congr rfl fun u _ => by
      rw [read_setUserClaims hd, if_neg fun hc => ht hc.1]
    omega

/-- No account has read an entry that can be funded. -/
theorem Funded.ne_of_read {t : Address} {n e : ℕ} (hd : Funded w w' sender t n e)
    (hi : Indexed w t) (hlater : e = w.latest ∨ World.isAfter (w.distributor.rewardEpochs t) e)
    (u : Address) :
    ∀ x ∈ (w.distributor.rewardEpochs t).take (w.distributor.userClaims t u), x ≠ e := by
  rintro x hx rfl
  have hdue : x ∈ due w.latest (w.distributor.rewardEpochs t) := by
    rw [take_eq hi.sorted (hi.claims u)] at hx
    exact List.mem_of_mem_take hx
  obtain ⟨hmem, hlt⟩ := mem_due.1 hdue
  rcases hd.epochs_eq hi hlater with ⟨hall, -⟩ | ⟨-, hlast, -⟩
  · exact lt_irrefl _ (hall x hmem)
  · exact hlt.ne hlast

/-- Funding an epoch changes nothing that was read. -/
theorem Funded.read_eq {t : Address} {n e : ℕ} (hd : Funded w w' sender t n e)
    (hi : Indexed w t) (hlater : e = w.latest ∨ World.isAfter (w.distributor.rewardEpochs t) e)
    (u : Address) : read B w' t u = read B w t u := by
  obtain ⟨s, -, -, hdata⟩ := hd.rate
  have htake : (w'.distributor.rewardEpochs t).take (w.distributor.userClaims t u) =
      (w.distributor.rewardEpochs t).take (w.distributor.userClaims t u) := by
    rcases hd.epochs_eq hi hlater with ⟨-, hes⟩ | ⟨-, -, hes⟩
    · rw [hes, update_self]
      exact List.take_append_of_le_length ((hi.claims u).trans length_due_le_length)
    · rw [hes]
  rw [read, read, hd.userClaims, htake]
  refine congrArg List.sum (List.map_congr_left fun x hx => ?_)
  rw [share, share, hdata, update_self, update_of_ne (hd.ne_of_read hi hlater u x hx)]

/-- Funding another token. -/
theorem Funded.same_of_ne {t : Address} {n e : ℕ} (hd : Funded w w' sender t n e)
    (ht : token ≠ t) : w'.distributor.rewardData token = w.distributor.rewardData token ∧
      w'.distributor.rewardEpochs token = w.distributor.rewardEpochs token := by
  obtain ⟨s, -, -, hdata⟩ := hd.rate
  refine ⟨by rw [hdata, update_of_ne ht], ?_⟩
  rw [hd.rewardEpochs]
  split_ifs
  · rw [update_of_ne ht]
  · rfl

theorem Funded.read_of_ne {t : Address} {n e : ℕ} (hd : Funded w w' sender t n e)
    (ht : token ≠ t) (u : Address) : read B w' token u = read B w token u := by
  obtain ⟨hdata, hes⟩ := hd.same_of_ne ht
  rw [read_congr hdata hes, hd.userClaims]
  rfl

/-- The rate of a funding is rounded down. -/
theorem covers_add {D s F n : ℕ} (h : D * s ≤ F * 10 ^ 20) :
    (D + n * 10 ^ 20 / s) * s ≤ (F + n) * 10 ^ 20 := by
  have hdiv := Nat.div_mul_le_self (n * 10 ^ 20) s
  rw [add_mul, add_mul]
  exact Nat.add_le_add h hdiv

/-- The funds cover the rewards, also after `n` was added for `e`. -/
theorem exists_cover {D F S : ℕ → ℕ} {es es' : List ℕ} {e n : ℕ}
    (hF : ∀ x, D x * S x ≤ F x * 10 ^ 20) (hD : ∀ x, x ∉ es → D x = 0)
    (hes : (∀ x ∈ es, x < e) ∧ es' = es ++ [e] ∨ es.Nodup ∧ e ∈ es ∧ es' = es) :
    ∃ F' : ℕ → ℕ, (∀ x, update D e (D e + n * 10 ^ 20 / S e) x * S x ≤ F' x * 10 ^ 20) ∧
      (es'.map F').sum = (es.map F).sum + n := by
  -- covered by `F` except at `e`, where `n` is added to `m`
  have hcover : ∀ m, (D e * S e ≤ m * 10 ^ 20) →
      ∀ x, update D e (D e + n * 10 ^ 20 / S e) x * S x ≤ update F e (m + n) x * 10 ^ 20 := by
    intro m hm x
    by_cases hx : x = e
    · subst hx
      rw [update_self, update_self]
      exact covers_add hm
    · rw [update_of_ne hx, update_of_ne hx]
      exact hF x
  rcases hes with ⟨hall, rfl⟩ | ⟨hnodup, hmem, rfl⟩
  · have hnot : e ∉ es := fun he => lt_irrefl _ (hall e he)
    refine ⟨update F e (0 + n), hcover 0 ?_, ?_⟩
    · rw [hD e hnot, Nat.zero_mul]
      exact Nat.zero_le _
    · rw [List.map_append, List.sum_append,
        List.map_congr_left fun x hx => update_of_ne (ne_of_mem_of_not_mem hx hnot) _ F,
        List.map_singleton, List.sum_singleton, update_self, Nat.zero_add]
  · exact ⟨update F e (F e + n), hcover (F e) (hF e), sum_map_update F n hnodup hmem⟩

/-- The books of the token that is funded. -/
theorem Books.fund_self {n e : ℕ} (h : Books B S token w) (hv : Views B S w)
    (hi : AllIndexed w) (hs : sender ≠ w.distributor.self) (hd : Funded w w' sender token n e)
    (hlater : e = w.latest ∨ World.isAfter (w.distributor.rewardEpochs token) e) :
    Books B S token w' := by
  obtain ⟨s, hsup, -, hdata⟩ := hd.rate
  obtain rfl := hv.supply e s hsup
  obtain ⟨F, hF, hfunds⟩ := h.funds
  have hsup' : ∀ x, w'.totalSupplyAtEpoch x = w.totalSupplyAtEpoch x := fun x => by
    unfold World.totalSupplyAtEpoch
    rw [hd.moved.locker, hd.moved.now]
  have hheld : w'.held token = w.held token + n := by
    have hbal := hd.moved.balance_dst hs token
    rw [if_pos rfl] at hbal
    unfold World.held
    rwa [hd.self]
  have hread : ∑ u, read B w' token u = ∑ u, read B w token u :=
    sum_congr rfl fun u _ => hd.read_eq (hi token) hlater u
  have hes : (∀ x ∈ w.distributor.rewardEpochs token, x < e) ∧
        w'.distributor.rewardEpochs token = w.distributor.rewardEpochs token ++ [e] ∨
      (w.distributor.rewardEpochs token).Nodup ∧ e ∈ w.distributor.rewardEpochs token ∧
        w'.distributor.rewardEpochs token = w.distributor.rewardEpochs token := by
    rcases hd.epochs_eq (hi token) hlater with ⟨hall, hes⟩ | ⟨hmem, -, hes⟩
    · exact .inl ⟨hall, by rw [hes, update_self]⟩
    · exact .inr ⟨(hi token).sorted.nodup, hmem, by rw [hes]⟩
  have hmem : ∀ x, x ∈ w'.distributor.rewardEpochs token ↔
      x ∈ w.distributor.rewardEpochs token ∨ x = e := by
    intro x
    rcases hes with ⟨-, hes⟩ | ⟨-, he, hes⟩
    · rw [hes, List.mem_append, List.mem_singleton]
    · rw [hes]
      exact ⟨.inl, fun hx => hx.elim id fun hx => hx ▸ he⟩
  obtain ⟨F', hF', hsum⟩ := exists_cover (n := n) hF h.unfunded hes
  refine ⟨fun x hx => ?_, fun x hx => ?_, F', fun x => ?_, ?_⟩
  · rw [hsup']
    rcases (hmem x).1 hx with hx | rfl
    · exact h.known x hx
    · exact hsup
  · rw [hmem, not_or] at hx
    rw [hdata, update_self, update_of_ne hx.2]
    exact h.unfunded x hx.1
  · rw [hdata, update_self]
    exact hF' x
  · rw [hsum, hread, hheld]
    omega

/-- Funding an epoch adds to what is held and to what covers its reward. -/
theorem Books.fund {t : Address} {n e : ℕ} (h : Books B S token w) (hv : Views B S w)
    (hi : AllIndexed w) (hs : sender ≠ w.distributor.self) (hd : Funded w w' sender t n e)
    (hlater : e = w.latest ∨ World.isAfter (w.distributor.rewardEpochs t) e) :
    Books B S token w' := by
  by_cases ht : token = t
  · subst ht
    exact h.fund_self hv hi hs hd hlater
  · obtain ⟨hdata, hes⟩ := hd.same_of_ne ht
    have hread : ∑ u, read B w' token u = ∑ u, read B w token u :=
      sum_congr rfl fun u _ => hd.read_of_ne ht u
    have hheld : w'.held token = w.held token := by
      have hbal := hd.moved.balance_dst hs token
      rw [if_neg ht, Nat.add_zero] at hbal
      unfold World.held
      rwa [hd.self]
    refine h.of_eq hdata hes (fun x hx => ?_) ?_
    · unfold World.totalSupplyAtEpoch
      rw [hd.moved.locker, hd.moved.now]
      exact h.known x hx
    · rw [hread, hheld]

/-! ## Runs -/

/-- What the loop adds is the share of the account. -/
theorem claimable_eq {u : Address} {e x : ℕ} (hv : Views B S w) (h : Books B S token w)
    (he : e ∈ w.distributor.rewardEpochs token) (hx : w._claimableRewards u token e = .ok x) :
    x = share B w token u e := by
  unfold World._claimableRewards at hx
  rw [hv.balance e _ (h.known e he) u, ok_bind] at hx
  obtain ⟨y, hy, hx⟩ := bind_eq_ok.1 hx
  obtain ⟨-, rfl⟩ := umul_eq_ok.1 hy
  cases hx
  rfl

/-- A claim pays shares between the cursor and the end of what is due. -/
theorem read_add_le {u : Address} {start n index : ℕ} (hv : Views B S w)
    (h : Books B S token w) (hi : Indexed w token)
    (hdue : w._allClaimableRewards u token start = .ok (n, index)) (hpos : 0 < n) :
    read B w token u + n ≤
      (((w.distributor.rewardEpochs token).take index).map (share B w token u)).sum := by
  obtain ⟨k, hk, -, hn, hidx⟩ := allClaimable_eq_ok (g := share B w token u) hi
    (fun e he x hx => claimable_eq hv h he hx) hdue
  dsimp only at hn hidx
  have hmono := sum_take_mono (share B w token u)
    (due w.latest (w.distributor.rewardEpochs token)) hk
  have hsplit := sum_take_add_drop (share B w token u)
    (due w.latest (w.distributor.rewardEpochs token)) k
  rw [read, take_eq hi.sorted (hi.claims u), hidx hpos, ← due_eq_take hi.sorted]
  omega

theorem Deployed.books (h : Deployed w) (token : Address) : Books B S token w := by
  have hes : w.distributor.rewardEpochs token = [] := by rw [h.distributor]
  have hdata : ∀ e, w.distributor.rewardData token e = 0 := fun e => by rw [h.distributor]
  refine ⟨by simp [hes], fun e _ => hdata e, fun _ => 0, fun e => ?_, ?_⟩
  · rw [hdata, Nat.zero_mul]
    exact Nat.zero_le _
  · rw [hes]
    exact Nat.zero_le _

/-- A call keeps the books. -/
theorem books_effect (hj : Joint w) (hc : IsCaller w sender) (hi : AllIndexed w)
    (hfit : Fits w'.chain.now) (hv : Views B S w') (h : ∀ token, Books B S token w)
    (he : Effect w w' sender c) (token : Address) : Books B S token w' := by
  obtain ⟨⟨_, hs⟩, -⟩ := hj.effect_steps hc he
  have hv₀ := hv.back hj hs hfit
  cases he with
  | locker call same =>
    refine (h token).same same hj hs hfit ?_
    rw [World.held, World.held, same.self]
    exact Locker.exec_balance_le hc.2.symm hj.locker_ne call token
  | settings chain same =>
    refine (h token).same same hj hs hfit ?_
    rw [World.held, World.held, same.self, chain]
  | fund checkpoint le later done =>
    rename_i w₁ t n e
    obtain ⟨hx, hd, hp⟩ := checkpointEpoch_eq_ok checkpoint
    have hs₁ : Locker.Steps w.chain _ w₁.chain :=
      .call .refl ⟨hj.self_ne, hj.locker_ne⟩ (c := .checkpointEpoch) hx
    have hj₁ := hj.of_steps hs₁ (by rw [hd])
    have hs₂ := steps_of_moved done.moved (hs₁.self_eq ▸ hc.1.2.symm)
    have hfit₁ : Fits w₁.chain.now := hfit.mono hs₂.now_le
    have h₁ : Books B S token w₁ := by
      refine (h token).same (.of_eq hd hp) hj hs₁ hfit₁ ?_
      rw [World.held, World.held, hd]
      obtain ⟨l, -, hl⟩ := bind_eq_ok.1 hx
      have htokens : w₁.chain.tokens = w.chain.tokens := by rw [← Except.ok.inj hl]
      rw [Locker.World.balance_congr htokens]
    exact h₁.fund (hv.back hj₁ hs₂ hfit) (hi.checkpoint hj checkpoint) (hd ▸ hc.2) done later
  | claim hdue done skip =>
    rename_i account t start n index
    have hsup : ∀ e, w'.totalSupplyAtEpoch e = w.totalSupplyAtEpoch e := fun e => by
      unfold World.totalSupplyAtEpoch
      rw [done.moved.locker, done.moved.now]
    have hself : w'.distributor.self = w.distributor.self := by
      rw [done.distributor]
      rfl
    refine (h token).advance done.distributor hsup ?_ (read_add_le hv₀ (h t) (hi t) hdue done.pos)
    rw [World.held, World.held, hself]
    exact done.moved.le_balance_src token
  | forfeit lt le done skip =>
    rename_i t index
    subst done
    refine (h token).advance (n := 0) rfl (fun _ => rfl) (Nat.le_add_right _ _) ?_
    exact sum_take_mono _ _ (le.trans (Nat.le_succ index))

/-- The books are kept in every run whose unlock times fit in `uint32`. -/
theorem Reachable.books {log : List Event} (h : Reachable log w) (hfit : Fits w.chain.now)
    (hv : Views B S w) (token : Address) : Books B S token w := by
  obtain ⟨w₀, h₀, hs⟩ := h
  induction hs generalizing token with
  | refl => exact h₀.books token
  | elsewhere hs he ih =>
    have hj : Joint _ := Reachable.joint ⟨w₀, h₀, hs⟩
    have hback := hv.back hj he.steps hfit
    refine (ih (hfit.mono he.chain.now) hback token).same (.of_eq he.distributor he.rewardPaid) hj
      he.steps hfit ?_
    rw [World.held, World.held, he.distributor]
    exact he.balances token
  | call hs hc hx ih =>
    have hj : Joint _ := Reachable.joint ⟨w₀, h₀, hs⟩
    have hi : AllIndexed _ := Reachable.allIndexed ⟨w₀, h₀, hs⟩
    obtain ⟨⟨_, hs'⟩, -⟩ := hj.effect_steps hc (exec_effect hx)
    exact books_effect hj hc hi hfit hv (ih (hfit.mono hs'.now_le) (hv.back hj hs' hfit))
      (exec_effect hx) token

/-! ## Claims do not run out of tokens -/

theorem avoids_claimEpochs {u : Address} {m : ℕ} (hv : Views B S w) (h : Books B S token w) :
    ∀ {es : List ℕ} (_ : ∀ e ∈ es, e ∈ w.distributor.rewardEpochs token) (i : ℕ) (r : ℕ × ℕ),
      Avoids Locker.exceedsBalance (w.claimEpochs u token m es i r)
  | [], _, _, _ => avoids_ok _
  | e :: es, hes, i, r => by
    have htail : ∀ x ∈ es, x ∈ w.distributor.rewardEpochs token := fun x hx => hes x (by simp [hx])
    unfold World.claimEpochs
    split_ifs
    · refine Avoids.then ?_ fun x => (avoids_uadd _ _ _).then fun y =>
        avoids_claimEpochs hv h htail (i + 1) _
      unfold World._claimableRewards
      rw [hv.balance e _ (h.known e (hes e (by simp))) u, ok_bind]
      exact (avoids_umul _ _ _).then fun _ => avoids_ok _
    · exact avoids_claimEpochs hv h htail (i + 1) r

/-- A claim is at most what the account is owed. -/
theorem claim_le_owed {u : Address} {start : ℕ} {r : ℕ × ℕ} (hv : Views B S w)
    (h : Books B S token w) (hi : Indexed w token)
    (hr : w._allClaimableRewards u token start = .ok r) : r.1 ≤ owed B w token u := by
  rcases Nat.eq_zero_or_pos r.1 with h0 | hpos
  · rw [h0]
    exact Nat.zero_le _
  · have hle := read_add_le hv h hi (show _ = Except.ok (r.1, r.2) from hr) hpos
    have hsplit := sum_take_add_drop (share B w token u) (w.distributor.rewardEpochs token)
    have hc := hsplit (w.distributor.userClaims token u)
    have hi := hsplit r.2
    rw [read] at hle
    rw [owed]
    omega

theorem getReward_avoids (hv : Views B S w) (h : Books B S token w) (hi : Indexed w token)
    (u : Address) (start : ℕ) : Avoids Locker.exceedsBalance (w._getReward u token start) := by
  unfold World._getReward
  refine Avoids.bind ?_ fun r hr => ?_
  · unfold World._allClaimableRewards
    refine (avoids_usub _ _).then fun m => ?_
    dsimp only
    generalize (if w.distributor.userClaims token u < start then start
      else w.distributor.userClaims token u) = k
    split_ifs
    · exact avoids_ok _
    · exact avoids_claimEpochs hv h (fun e he => List.mem_of_mem_drop he) _ _
  · split_ifs
    · have hle : r.1 ≤ w.held token := (claim_le_owed hv h hi hr).trans
        ((le_sum (owed B w token) u).trans (h.owed_le hv))
      exact (Locker.transfer_avoids _ _ _ hle).then fun _ => avoids_ok _
    · exact avoids_ok _

/-- As long as unlock times fit in `uint32`, the locker knows the balances of all epochs that
were funded, the distributor holds the shares that are not claimed, and no claim fails for
lack of tokens. -/
theorem distributor_solvent {log : List Event} (h : Reachable log w) (hfit : Fits w.chain.now)
    (token : Address) :
    ∃ B : ℕ → Address → ℕ,
      (∀ e ∈ w.distributor.rewardEpochs token, ∀ u, w.balanceAtEpochOf e u = .ok (B e u)) ∧
      ∑ u, owed B w token u ≤ (w.chain.tokens token).balanceOf w.distributor.self ∧
      ∀ u start, Avoids Locker.exceedsBalance (w._getReward u token start) := by
  obtain ⟨log', hr⟩ := h.joint.chain
  obtain ⟨B, S, hv⟩ := exists_views hr hfit
  have hb := h.books hfit hv token
  exact ⟨B, fun e he u => hv.balance e _ (hb.known e he) u, hb.owed_le hv,
    getReward_avoids hv hb (h.allIndexed token)⟩

/-- The account 1 locks in week 20, adds a reward of 7 for week 21 and claims it in week 22. -/
theorem distributor_solvent_run : ∃ w : World, w.rewardPaid = [⟨1, 400, 7, 1⟩] ∧
    ∃ B : ℕ → Address → ℕ,
      ∑ u, owed B w 400 u ≤ (w.chain.tokens 400).balanceOf w.distributor.self := by
  let start := 20 * Locker.rewardsDuration
  let log : List Event := [⟨start, 1, .locker (.lock 1 5)⟩, ⟨start, 101, .modifyWhitelist 1 true⟩,
    ⟨start + Locker.rewardsDuration + 1, 1, .addReward 400 7⟩,
    ⟨start + 2 * Locker.rewardsDuration + 1, 1, .addReward 400 9⟩,
    ⟨start + 2 * Locker.rewardsDuration + 1, 1, .getReward 1 400⟩]
  have h : Reachable log ((World.initial start).after log) :=
    ⟨_, World.initial_deployed (by decide), .after (by decide +kernel)⟩
  obtain ⟨B, -, hle, -⟩ := distributor_solvent h (by decide +kernel) 400
  exact ⟨(World.initial start).after log, by decide +kernel, B, hle⟩

/-- After a lock whose unlock time does not fit in `uint32` the locker does not know the
balance of an epoch that was funded. -/
theorem distributor_truncated : ¬∀ {log : List Event} {w : World}, Reachable log w →
    ∀ token, ∃ B : ℕ → Address → ℕ,
      (∀ e ∈ w.distributor.rewardEpochs token, ∀ u, w.balanceAtEpochOf e u = .ok (B e u)) ∧
      ∑ u, owed B w token u ≤ (w.chain.tokens token).balanceOf w.distributor.self := by
  intro h
  let start := 7084 * Locker.rewardsDuration
  let log : List Event := [⟨start, 1, .locker (.lock 1 5)⟩, ⟨start, 101, .modifyWhitelist 1 true⟩,
    ⟨start + Locker.rewardsDuration + 1, 1, .addReward 400 7⟩,
    ⟨start + Locker.rewardsDuration + 1, 1, .locker (.lock 1 5)⟩]
  have hrun : Reachable log ((World.initial start).after log) :=
    ⟨_, World.initial_deployed (by decide), .after (by decide +kernel)⟩
  obtain ⟨B, hb, -⟩ := h hrun 400
  have hrev : ((World.initial start).after log).balanceAtEpochOf 1 1 = .error .underflow := by
    decide +kernel
  have hbal := hb 1 (by decide +kernel) 1
  rw [hrev] at hbal
  cases hbal

end Aura.Rewards
