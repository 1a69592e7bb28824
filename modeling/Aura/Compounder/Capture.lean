import Aura.Compounder.Previews

/-!
# GenericUnionVault : what users can take from each other

Users deposit, mint, redeem and withdraw for themselves, and transfer the underlying token
to the strategy. Without a penalty and without gains nobody is paid more than it has put in,
what the others have given away, and what the others have lost to the rounding
(`paid_le_put`).

An operation that rounds the assets loses less than one. A deposit rounds the shares and
loses up to the price of one, and the price can be raised by a transfer : the first depositor
can take half of the next deposit (`deposit_captured`). Where every deposit of the others
leaves a remainder that is small for the price (`Vault.Fair`), each of their operations loses
at most one asset (`paid_le_put_of_fair`).

The others are followed as one holder of the pool : what they have put in is worth what they
have been paid and what their shares are worth, but for the rounding (`Split`).
-/

open Evm Function SharePool

namespace Aura.Compounder

/-- What a user does. -/
inductive Act where
  | deposit (_amount : ℕ)
  | mint (_shares : ℕ)
  | redeem (_shares : ℕ)
  | withdraw (_assets : ℕ)
  | donate (amount : ℕ)
  deriving DecidableEq

namespace Vault

/-- A transfer to the strategy, whose `totalUnderlying` is its balance. -/
def donate (v : Vault) (sender : Address) (amount : ℕ) : Tx Vault := do
  let underlying ← v.underlying.transfer sender v.strategy amount
  let totalUnderlying ← uadd 256 v.totalUnderlying amount
  .ok { v with underlying, totalUnderlying }

/-- A user acts for itself. -/
def perform (v : Vault) (user : Address) : Act → Tx Vault
  | .deposit a => v.exec user (.deposit a user)
  | .mint n => v.exec user (.mint n user)
  | .redeem n => v.exec user (.redeem n user user)
  | .withdraw a => v.exec user (.withdraw a user user)
  | .donate a => v.donate user a

/-- What the rounding of an act can take from the user. -/
def loss (v : Vault) : Act → ℕ
  | .deposit a => depositLoss v.totalSupply v.totalUnderlying a
  | .donate _ => 0
  | _ => 1

/-- The first deposit is fair, and a later one if what it leaves of the division into shares
is small for the price of a share. -/
def Fair (v : Vault) : Act → Prop
  | .deposit a => v.totalSupply = 0 ∨ (v.totalUnderlying + 1) *
      (a * v.totalSupply % v.totalUnderlying) ≤ v.totalSupply * (v.totalUnderlying + a)
  | _ => True

instance (v : Vault) (act : Act) : Decidable (v.Fair act) :=
  match act with
  | .deposit _ => inferInstanceAs (Decidable (_ ∨ _))
  | .mint _ | .redeem _ | .withdraw _ | .donate _ => .isTrue trivial

end Vault

/-! ## Runs -/

/-- An act with what the user put in and what it was paid. -/
structure Entry where
  user : Address
  act : Act
  put : ℕ
  paid : ℕ
  loss : ℕ
  /-- Whether the act was fair in the vault before it. -/
  fair : Bool

/-- The entry of an act that took the vault from `v` to `v'`. -/
def Entry.of (v v' : Vault) (user : Address) (act : Act) : Entry where
  user := user
  act := act
  put := v.underlying.balanceOf user - v'.underlying.balanceOf user
  paid := v'.underlying.balanceOf user - v.underlying.balanceOf user
  loss := v.loss act
  fair := v.Fair act

/-- An empty vault without a penalty, of a strategy without gains. -/
structure Fresh (v : Vault) : Prop where
  supply : v.totalSupply = 0
  total : v.totalUnderlying = 0
  penalty : v.withdrawalPenalty = 0
  gains : v.gains = 0
  own : v.underlying.balanceOf v.self = 0
  strategy : v.strategy ≠ v.self

/-- The runs from an empty vault, the last entry first. The underlying token also moves
between the users. -/
inductive Played (v₀ : Vault) : List Entry → Vault → Prop
  | start : Played v₀ [] v₀
  | act {log : List Entry} {v v' : Vault} (user : Address) (act : Act) : Played v₀ log v →
      user ≠ v.self → user ≠ v.strategy → v.perform user act = .ok v' →
        Played v₀ (Entry.of v v' user act :: log) v'
  | elsewhere {log : List Entry} {v : Vault} (t : Erc20 Address) : Played v₀ log v →
      t.balanceOf v.self = v.underlying.balanceOf v.self →
      t.balanceOf v.strategy = v.underlying.balanceOf v.strategy →
        Played v₀ log { v with underlying := t }

/-- The sum of what the entries that satisfy `p` count. -/
def total (p : Entry → Bool) (f : Entry → ℕ) (log : List Entry) : ℕ :=
  ((log.filter p).map f).sum

def Act.isDonation : Act → Bool
  | .donate _ => true
  | _ => false

/-- What `u` has put in. -/
def putBy (u : Address) : List Entry → ℕ :=
  total (fun e => e.user = u) Entry.put

/-- What `u` has been paid. -/
def paidTo (u : Address) : List Entry → ℕ :=
  total (fun e => e.user = u) Entry.paid

/-- What the others have transferred to the strategy. -/
def donatedByOthers (u : Address) : List Entry → ℕ :=
  total (fun e => e.user ≠ u ∧ e.act.isDonation = true) Entry.put

/-- How often the others have used the vault. -/
def callsOfOthers (u : Address) : List Entry → ℕ :=
  total (fun e => e.user ≠ u ∧ e.act.isDonation = false) fun _ => 1

/-- What the others may have lost to the rounding. -/
def lostByOthers (u : Address) : List Entry → ℕ :=
  total (fun e => e.user ≠ u ∧ e.act.isDonation = false) Entry.loss

/-- What the others have put into the vault. -/
def depositedByOthers (u : Address) : List Entry → ℕ :=
  total (fun e => e.user ≠ u ∧ e.act.isDonation = false) Entry.put

/-- What the others have been paid. -/
def paidToOthers (u : Address) : List Entry → ℕ :=
  total (fun e => e.user ≠ u ∧ e.act.isDonation = false) Entry.paid

theorem total_cons_of {p : Entry → Bool} {e : Entry} (h : p e = true) (f : Entry → ℕ)
    (log : List Entry) : total p f (e :: log) = f e + total p f log := by
  unfold total
  rw [List.filter_cons_of_pos h, List.map_cons, List.sum_cons]

theorem total_cons_of_not {p : Entry → Bool} {e : Entry} (h : p e = false) (f : Entry → ℕ)
    (log : List Entry) : total p f (e :: log) = total p f log := by
  unfold total
  rw [List.filter_cons_of_neg (ne_true_of_eq_false h)]

/-- The sums after an entry of `u`. -/
theorem totals_of_user {u : Address} {e : Entry} (h : e.user = u) (log : List Entry) :
    putBy u (e :: log) = e.put + putBy u log ∧ paidTo u (e :: log) = e.paid + paidTo u log ∧
      donatedByOthers u (e :: log) = donatedByOthers u log ∧
      depositedByOthers u (e :: log) = depositedByOthers u log ∧
      paidToOthers u (e :: log) = paidToOthers u log ∧
      lostByOthers u (e :: log) = lostByOthers u log :=
  ⟨total_cons_of (by simp [h]) _ _, total_cons_of (by simp [h]) _ _,
    total_cons_of_not (by simp [h]) _ _, total_cons_of_not (by simp [h]) _ _,
    total_cons_of_not (by simp [h]) _ _, total_cons_of_not (by simp [h]) _ _⟩

/-- The sums after a use of the vault by another user. -/
theorem totals_of_other {u : Address} {e : Entry} (h : e.user ≠ u)
    (hact : e.act.isDonation = false) (log : List Entry) :
    putBy u (e :: log) = putBy u log ∧ paidTo u (e :: log) = paidTo u log ∧
      donatedByOthers u (e :: log) = donatedByOthers u log ∧
      depositedByOthers u (e :: log) = e.put + depositedByOthers u log ∧
      paidToOthers u (e :: log) = e.paid + paidToOthers u log ∧
      lostByOthers u (e :: log) = e.loss + lostByOthers u log :=
  ⟨total_cons_of_not (by simp [h]) _ _, total_cons_of_not (by simp [h]) _ _,
    total_cons_of_not (by simp [hact]) _ _, total_cons_of (by simp [h, hact]) _ _,
    total_cons_of (by simp [h, hact]) _ _, total_cons_of (by simp [h, hact]) _ _⟩

/-- The sums after a transfer of another user to the strategy. -/
theorem totals_of_donation {u : Address} {e : Entry} (h : e.user ≠ u)
    (hact : e.act.isDonation = true) (log : List Entry) :
    putBy u (e :: log) = putBy u log ∧ paidTo u (e :: log) = paidTo u log ∧
      donatedByOthers u (e :: log) = e.put + donatedByOthers u log ∧
      depositedByOthers u (e :: log) = depositedByOthers u log ∧
      paidToOthers u (e :: log) = paidToOthers u log ∧
      lostByOthers u (e :: log) = lostByOthers u log :=
  ⟨total_cons_of_not (by simp [h]) _ _, total_cons_of_not (by simp [h]) _ _,
    total_cons_of (by simp [h, hact]) _ _, total_cons_of_not (by simp [hact]) _ _,
    total_cons_of_not (by simp [hact]) _ _, total_cons_of_not (by simp [hact]) _ _⟩

namespace Vault

variable {v v' : Vault} {u user : Address} {act : Act} {a m n x : ℕ}

/-! ## What an act does -/

/-- What holds of the vault all along : no penalty, no gains, and no tokens of its own. -/
structure Plain (v : Vault) : Prop where
  penalty : v.withdrawalPenalty = 0
  gains : v.gains = 0
  own : v.underlying.balanceOf v.self = 0
  strategy : v.strategy ≠ v.self

/-- What an act of `user` does to the pool. -/
inductive Traded (v v' : Vault) (user : Address) (act : Act) : Prop
  | bought (a m : ℕ) : act.isDonation = false → v'.totalUnderlying = v.totalUnderlying + a →
      v'.totalSupply = v.totalSupply + m → v'.shares.balanceOf =
        update v.shares.balanceOf user (v.shares.balanceOf user + m) →
      (v.totalSupply = 0 ∧ m = a ∨ 0 < v.totalSupply ∧
        m * v.totalUnderlying ≤ a * v.totalSupply ∧
        a * v.totalSupply ≤ m * v.totalUnderlying + v.loss act * (v.totalSupply + m)) →
      (Entry.of v v' user act).put = a → (Entry.of v v' user act).paid = 0 →
        Traded v v' user act
  | sold (m x : ℕ) : act.isDonation = false → v'.totalUnderlying + x = v.totalUnderlying →
      v'.totalSupply + m = v.totalSupply → m ≤ v.shares.balanceOf user →
      v'.shares.balanceOf = update v.shares.balanceOf user (v.shares.balanceOf user - m) →
      0 < v.totalSupply →
      (v'.totalSupply = 0 ∧ v'.totalUnderlying = 0 ∨ 0 < v'.totalSupply ∧
        x * v.totalSupply ≤ m * v.totalUnderlying ∧
        m * v.totalUnderlying ≤ x * v.totalSupply + v.loss act * v.totalSupply) →
      (Entry.of v v' user act).put = 0 → (Entry.of v v' user act).paid = x →
        Traded v v' user act
  | donated (a : ℕ) : act.isDonation = true → v'.totalUnderlying = v.totalUnderlying + a →
      v'.shares = v.shares → (Entry.of v v' user act).put = a →
      (Entry.of v v' user act).paid = 0 → Traded v v' user act

theorem deposit_gains (h : v.deposit user a user = .ok (v', m)) : v'.gains = v.gains := by
  unfold deposit at h
  obtain ⟨-, -, h⟩ := bind_eq_ok.1 h
  obtain ⟨-, h⟩ := require_bind_eq_ok.1 h
  obtain ⟨_, -, h⟩ := bind_eq_ok.1 h
  obtain ⟨_, -, h⟩ := bind_eq_ok.1 h
  obtain ⟨v₁, h₁, h⟩ := bind_eq_ok.1 h
  obtain ⟨_, -, h⟩ := bind_eq_ok.1 h
  obtain rfl := stake_eq_ok h₁
  cases h
  rfl

theorem unstake_gains (h : v.unstake n = .ok v') : v'.gains = v.gains := by
  unfold unstake at h
  obtain ⟨_, -, h⟩ := bind_eq_ok.1 h
  obtain ⟨_, -, h⟩ := bind_eq_ok.1 h
  cases h
  rfl

theorem payOut_gains (h : v.payOut a = .ok (v', x)) (h0 : v.gains = 0) : v'.gains = 0 := by
  unfold payOut at h
  split_ifs at h
  · obtain ⟨v₁, h₁, h⟩ := bind_eq_ok.1 h
    obtain ⟨v₂, h₂, h⟩ := bind_eq_ok.1 h
    cases h
    exact (unstake_gains h₂).trans (harvest_eq_ok h₁ ▸ rfl)
  · obtain ⟨_, -, h⟩ := bind_eq_ok.1 h
    obtain ⟨_, -, h⟩ := bind_eq_ok.1 h
    obtain ⟨v₁, h₁, h⟩ := bind_eq_ok.1 h
    cases h
    exact (unstake_gains h₁).trans h0

theorem redeem_gains (h : v.redeem user m user user = .ok (v', x)) (h0 : v.gains = 0) :
    v'.gains = 0 := by
  unfold redeem at h
  obtain ⟨-, -, h⟩ := bind_eq_ok.1 h
  obtain ⟨-, -, h⟩ := bind_eq_ok.1 h
  obtain ⟨_, -, h⟩ := bind_eq_ok.1 h
  obtain ⟨r, hr, h⟩ := bind_eq_ok.1 h
  obtain ⟨_, -, h⟩ := bind_eq_ok.1 h
  cases h
  unfold _withdraw at hr
  obtain ⟨-, hr⟩ := require_bind_eq_ok.1 hr
  obtain ⟨_, -, hr⟩ := bind_eq_ok.1 hr
  obtain ⟨_, -, hr⟩ := bind_eq_ok.1 hr
  obtain ⟨_, -, hr⟩ := bind_eq_ok.1 hr
  have hgains : r.1.gains = 0 := payOut_gains hr h0
  exact hgains

/-- A deposit of a user for itself that buys `m` shares for `a` with little loss. -/
theorem deposit_traded (hv : Plain v) (hself : user ≠ v.self) (hstr : user ≠ v.strategy)
    (hact : act.isDonation = false) (h : v.deposit user a user = .ok (v', m))
    (hloss : 0 < v.totalSupply →
      a * v.totalSupply ≤ m * v.totalUnderlying + v.loss act * (v.totalSupply + m)) :
    Traded v v' user act ∧ Plain v' := by
  have hd := deposit_eq_ok h
  have hbal := (deposit_underlying h).2
  have ha : a ≤ v.underlying.balanceOf user := (deposit_underlying h).1
  have hnew : v'.underlying.balanceOf user = v.underlying.balanceOf user - a := by
    rw [hbal, move_src _ _ hstr]
  refine ⟨.bought a m hact hd.total hd.supply hd.balance ?_ ?_ ?_, ?_⟩
  · rcases hd.shares with h0 | ⟨hS, -, hm⟩
    · exact .inl h0
    · exact .inr ⟨hS, hm ▸ floorShares_mul_le _ _ _, hloss hS⟩
  · show _ - _ = a
    rw [hnew]
    exact Nat.sub_sub_self ha
  · show _ - _ = 0
    rw [hnew]
    exact Nat.sub_eq_zero_of_le (Nat.sub_le _ _)
  · refine ⟨hd.config.withdrawalPenalty.trans hv.penalty, (deposit_gains h).trans hv.gains, ?_, ?_⟩
    · rw [hbal, hd.config.self, move_of_ne _ _ hself.symm hv.strategy.symm]
      exact hv.own
    · rw [hd.config.self, hd.config.strategy]
      exact hv.strategy

/-- A redemption of a user for itself. -/
theorem redeem_traded (hv : Plain v) (hself : user ≠ v.self) (hstr : user ≠ v.strategy)
    (hact : act.isDonation = false) (hloss : v.loss act = 1)
    (h : v.redeem user m user user = .ok (v', x)) : Traded v v' user act ∧ Plain v' := by
  have hr := redeem_eq_ok h
  obtain ⟨n, hbal, hu⟩ := redeem_unstaked h
  have hnew : v'.underlying.balanceOf user = v.underlying.balanceOf user + x := by
    rw [hbal, move_dst _ _ hself.symm, move_of_ne _ _ hstr hself]
  -- what is unstaked is paid out
  have hx : n = x := by
    rcases hu.paid with ⟨-, -, rfl⟩ | ⟨-, hn, -⟩
    · rw [move_dst _ _ hv.strategy, hv.own, Nat.zero_add]
    · exact hn
  refine ⟨.sold m x hact ?_ hr.supply hr.le hr.balance hr.pos ?_ ?_ ?_, ?_⟩
  · rcases hr.paid with ⟨h0, hT⟩ | ⟨-, hT, -⟩
    · rcases hu.paid with ⟨-, hn, -⟩ | ⟨hpos, -⟩
      · rw [hT, ← hx, hn, hv.gains, Nat.zero_add, Nat.add_zero]
      · omega
    · exact hT
  · rcases hr.paid with h0 | ⟨hpos, -, hle⟩
    · exact .inl h0
    · rcases hu.paid with ⟨h0, -⟩ | ⟨-, -, -, hnet⟩
      · omega
      · refine .inr ⟨hpos, hle, ?_⟩
        have hfloor : x = m * v.totalUnderlying / v.totalSupply := by
          rw [hnet, hv.penalty]
          unfold Fee.net
          rw [Nat.mul_zero, Nat.zero_div, Nat.sub_zero]
          rfl
        rw [hloss, ← add_mul, hfloor]
        exact le_succ_div_mul _ hr.pos
  · show _ - _ = 0
    rw [hnew]
    exact Nat.sub_eq_zero_of_le (Nat.le_add_right _ _)
  · show _ - _ = x
    rw [hnew]
    exact Nat.add_sub_cancel_left _ _
  · refine ⟨hr.config.withdrawalPenalty.trans hv.penalty, redeem_gains h hv.gains, ?_, ?_⟩
    · rw [hbal, hr.config.self, move_src _ _ hself.symm, move_dst _ _ hv.strategy, hv.own, hx]
      omega
    · rw [hr.config.self, hr.config.strategy]
      exact hv.strategy

theorem donate_traded (hv : Plain v) (hself : user ≠ v.self) (hstr : user ≠ v.strategy)
    (h : v.donate user a = .ok v') : Traded v v' user (.donate a) ∧ Plain v' := by
  unfold donate at h
  obtain ⟨t, ht, h⟩ := bind_eq_ok.1 h
  obtain ⟨n, hn, h⟩ := bind_eq_ok.1 h
  obtain ⟨-, rfl⟩ := uadd_eq_ok.1 hn
  cases h
  obtain ⟨-, -, hle, hbal, -, -⟩ := Erc20.transfer_eq_ok ht
  have hnew : t.balanceOf user = v.underlying.balanceOf user - a := by
    rw [hbal, move_src _ _ hstr]
  refine ⟨.donated a rfl rfl rfl ?_ ?_, hv.penalty, hv.gains, ?_, hv.strategy⟩
  · show _ - t.balanceOf user = a
    rw [hnew]
    exact Nat.sub_sub_self hle
  · show t.balanceOf user - _ = 0
    rw [hnew]
    exact Nat.sub_eq_zero_of_le (Nat.sub_le _ _)
  · show t.balanceOf v.self = 0
    rw [hbal, move_of_ne _ _ hself.symm hv.strategy.symm]
    exact hv.own

theorem perform_traded (hv : Plain v) (hle : v.totalSupply ≤ v.totalUnderlying)
    (hself : user ≠ v.self) (hstr : user ≠ v.strategy) (h : v.perform user act = .ok v') :
    Traded v v' user act ∧ Plain v' := by
  cases act with
  | deposit a =>
    obtain ⟨m, h⟩ := state_eq_ok h
    refine deposit_traded hv hself hstr rfl h fun hS => ?_
    rcases (deposit_eq_ok h).shares with ⟨h0, -⟩ | ⟨-, -, rfl⟩
    · omega
    · exact le_floorShares_add_depositLoss hS _ _
  | mint n =>
    obtain ⟨m, h⟩ := state_eq_ok h
    obtain ⟨rfl, a, ha, h⟩ := mint_previewed hle h
    refine deposit_traded hv hself hstr rfl h fun hS => ?_
    unfold previewMint _convertToAssets at ha
    rw [if_neg hS.ne'] at ha
    obtain ⟨-, -, rfl⟩ := mulDiv_up.1 ha
    have hceil := ceilShares_mul_lt v.totalUnderlying m hS
    rw [show v.loss (.mint m) = 1 from rfl, one_mul]
    omega
  | redeem n =>
    obtain ⟨x, h⟩ := state_eq_ok h
    exact redeem_traded hv hself hstr rfl rfl h
  | withdraw a =>
    obtain ⟨x, h⟩ := state_eq_ok h
    obtain ⟨m, -, h⟩ := bind_eq_ok.1 h
    exact redeem_traded hv hself hstr rfl rfl h
  | donate a => exact donate_traded hv hself hstr h

/-! ## The invariant -/

/-- What the others of `u` have put in is worth what they were paid and what their shares are
worth, but for what they may have lost; and what is staked is what was put in and not paid. -/
structure Split (u : Address) (log : List Entry) (v : Vault) : Prop where
  plain : Plain v
  supply_le : v.totalSupply ≤ v.totalUnderlying
  conserved : v.totalUnderlying + paidTo u log + paidToOthers u log =
    putBy u log + depositedByOthers u log + donatedByOthers u log
  worth : Worth v.totalSupply v.totalUnderlying (v.totalSupply - v.shares.balanceOf u)
    (depositedByOthers u log) (paidToOthers u log + lostByOthers u log)

theorem perform_supply_le (hle : v.totalSupply ≤ v.totalUnderlying)
    (h : v.perform user act = .ok v') : v'.totalSupply ≤ v'.totalUnderlying := by
  cases act with
  | donate a =>
    obtain ⟨t, -, h⟩ := bind_eq_ok.1 h
    obtain ⟨n, hn, h⟩ := bind_eq_ok.1 h
    obtain ⟨-, rfl⟩ := uadd_eq_ok.1 hn
    cases h
    exact hle.trans (Nat.le_add_right _ _)
  | deposit a => exact (exec_flow (c := .deposit a user) h).supply_le hle
  | mint a => exact (exec_flow (c := .mint a user) h).supply_le hle
  | redeem a => exact (exec_flow (c := .redeem a user user) h).supply_le hle
  | withdraw a => exact (exec_flow (c := .withdraw a user user) h).supply_le hle

variable {log : List Entry}

/-- An act of `u` itself. -/
theorem Split.own (h : Split u log v) (ht : Traded v v' u act) (hv : Plain v')
    (hle : v'.totalSupply ≤ v'.totalUnderlying) :
    Split u (Entry.of v v' u act :: log) v' := by
  obtain ⟨hput, hpaid, hdon, hdep, hpaidO, hlost⟩ :=
    totals_of_user (u := u) (e := Entry.of v v' u act) rfl log
  have hcons := h.conserved
  have hb : v.shares.balanceOf u ≤ v.totalSupply := Erc20.balanceOf_le _ _
  refine ⟨hv, hle, ?_, ?_⟩
  · rw [hput, hpaid, hdon, hdep, hpaidO]
    cases ht with
    | bought a m _ hT _ _ _ hp hx => omega
    | sold m x _ hT _ _ _ _ _ hp hx => omega
    | donated a _ hT _ hp hx => omega
  · rw [hdep, hpaidO, hlost]
    cases ht with
    | bought a m _ hT hS hbal hprice _ _ =>
      have hrest : v.totalSupply + m - (v.shares.balanceOf u + m) =
        v.totalSupply - v.shares.balanceOf u := Nat.add_sub_add_right _ _ _
      rw [hT, hS, hbal, update_self, hrest]
      rcases hprice with ⟨h0, rfl⟩ | ⟨hpos, hprice, -⟩
      · have hw := h.worth
        rw [h0] at hw ⊢
        exact hw.first _ _
      · exact h.worth.others_buy hpos hprice
    | sold m x _ hT hS hm hbal hpos hprice _ _ =>
      have hrest : v'.totalSupply - (v.shares.balanceOf u - m) =
        v.totalSupply - v.shares.balanceOf u := by omega
      rw [hbal, update_self, hrest]
      rcases hprice with ⟨h0, hT0⟩ | ⟨hpos', hprice, -⟩
      · have hnone : v.totalSupply - v.shares.balanceOf u = 0 := by omega
        have hw := h.worth
        rw [hnone] at hw ⊢
        exact hw.others_leave hpos _ _ _
      · rw [show v'.totalSupply = v.totalSupply - m by omega,
          show v'.totalUnderlying = v.totalUnderlying - x by omega]
        exact h.worth.others_withdraw (by omega) hprice
    | donated a _ hT hs _ _ =>
      have hS : v'.totalSupply = v.totalSupply := congrArg Erc20.totalSupply hs
      rw [hT, hS, hs]
      exact h.worth.gain (Nat.le_add_right _ _)

/-- An act of another user. -/
theorem Split.other (h : Split u log v) (hu : user ≠ u) (ht : Traded v v' user act)
    (hv : Plain v') (hle : v'.totalSupply ≤ v'.totalUnderlying) :
    Split u (Entry.of v v' user act :: log) v' := by
  have hcons := h.conserved
  have hb : v.shares.balanceOf u ≤ v.totalSupply := Erc20.balanceOf_le _ _
  cases ht with
  | bought a m hact hT hS hbal hprice hp hx =>
    obtain ⟨hput, hpaid, hdon, hdep, hpaidO, hlost⟩ :=
      totals_of_other (e := Entry.of v v' user act) hu hact log
    refine ⟨hv, hle, by omega, ?_⟩
    have hrest : v.totalSupply + m - v.shares.balanceOf u =
      v.totalSupply - v.shares.balanceOf u + m := by omega
    rw [hdep, hpaidO, hlost, hp, hx, hT, hS, hbal, update_of_ne hu.symm, hrest,
      Nat.add_comm a (depositedByOthers u log)]
    rcases hprice with ⟨h0, rfl⟩ | ⟨hpos, hprice, hloss⟩
    · have hw := h.worth
      rw [h0] at hw ⊢
      rw [Nat.zero_add]
      exact (hw.deposit_first _).mono le_rfl (by omega)
    · refine (h.worth.buy hpos hprice hloss).mono le_rfl ?_
      show _ ≤ 0 + paidToOthers u log + (v.loss act + lostByOthers u log)
      omega
  | sold m x hact hT hS hm hbal hpos hprice hp hx =>
    obtain ⟨hput, hpaid, hdon, hdep, hpaidO, hlost⟩ :=
      totals_of_other (e := Entry.of v v' user act) hu hact log
    have htwo : v.shares.balanceOf user + v.shares.balanceOf u ≤ v.totalSupply :=
      v.shares.balanceOf_add_le hu
    have hlosses : (Entry.of v v' user act).loss = v.loss act := rfl
    refine ⟨hv, hle, by omega, ?_⟩
    rw [hdep, hpaidO, hlost, hp, hx, hlosses, hbal, update_of_ne hu.symm, Nat.zero_add]
    rcases hprice with ⟨h0, hT0⟩ | ⟨hpos', hprice, hloss⟩
    · have hall : v.totalSupply - v.shares.balanceOf u = v.totalSupply := by omega
      have hw := h.worth
      rw [hall] at hw
      exact (hw.sell_all hpos _ _ _).mono le_rfl (by omega)
    · have hrest : v'.totalSupply - v.shares.balanceOf u =
        v.totalSupply - v.shares.balanceOf u - m := by omega
      rw [hrest, show v'.totalSupply = v.totalSupply - m by omega,
        show v'.totalUnderlying = v.totalUnderlying - x by omega]
      exact (h.worth.sell (by omega) (by omega) hprice hloss).mono le_rfl (by omega)
  | donated a hact hT hs hp hx =>
    obtain ⟨hput, hpaid, hdon, hdep, hpaidO, hlost⟩ :=
      totals_of_donation (e := Entry.of v v' user act) hu hact log
    have hS : v'.totalSupply = v.totalSupply := congrArg Erc20.totalSupply hs
    refine ⟨hv, hle, by omega, ?_⟩
    rw [hdep, hpaidO, hlost, hT, hS, hs]
    exact h.worth.gain (Nat.le_add_right _ _)

end Vault

open Vault

variable {v₀ v : Vault} {log : List Entry}

theorem Fresh.split (h : Fresh v₀) (u : Address) : Split u [] v₀ := by
  refine ⟨⟨h.penalty, h.gains, h.own, h.strategy⟩, ?_, ?_, ?_, fun _ => Nat.zero_le _⟩
  · rw [h.supply]
    exact Nat.zero_le _
  · rw [h.total]
    rfl
  · rw [h.supply]
    exact Nat.zero_le _

theorem Played.split (h₀ : Fresh v₀) (h : Played v₀ log v) (u : Address) : Split u log v := by
  induction h with
  | start => exact h₀.split u
  | act user act _ hself hstr hx ih =>
    obtain ⟨ht, hv⟩ := perform_traded ih.plain ih.supply_le hself hstr hx
    have hle := perform_supply_le ih.supply_le hx
    by_cases hu : user = u
    · subst hu
      exact ih.own ht hv hle
    · exact ih.other hu ht hv hle
  | elsewhere t _ hown _ ih =>
    have hp := ih.plain
    exact ⟨⟨hp.penalty, hp.gains, hown.trans hp.own, hp.strategy⟩, ih.supply_le, ih.conserved,
      ih.worth⟩

/-- Nobody is paid more than it has put in, what the others have given away, and what the
others may have lost to the rounding : one asset for a mint, a redemption or a withdrawal,
and for a deposit what its shares are worth too little. -/
theorem paid_le_put (h₀ : Fresh v₀) (h : Played v₀ log v) (u : Address) :
    paidTo u log ≤ putBy u log + donatedByOthers u log + lostByOthers u log := by
  have hs := h.split h₀ u
  have hcons := hs.conserved
  have hworth : depositedByOthers u log ≤
      v.totalUnderlying + (paidToOthers u log + lostByOthers u log) := by
    rcases Nat.eq_zero_or_pos v.totalSupply with h0 | hpos
    · exact (hs.worth.empty h0).trans (Nat.le_add_left _ _)
    · refine (hs.worth.le_value hpos).trans (Nat.add_le_add_right ?_ _)
      exact Nat.div_le_of_le_mul (Nat.mul_le_mul_right _ (Nat.sub_le _ _))
  omega

/-! ## Fair deposits -/

theorem Vault.Fair.loss_le {act : Act} (h : v.Fair act) (hle : v.totalSupply ≤ v.totalUnderlying) :
    v.loss act ≤ 1 := by
  cases act with
  | deposit a =>
    rcases Nat.eq_zero_or_pos v.totalSupply with h0 | hpos
    · show depositLoss v.totalSupply v.totalUnderlying a ≤ 1
      unfold depositLoss
      rw [h0, Nat.mul_zero, Nat.zero_mod, zero_ceilDiv]
      exact Nat.zero_le 1
    · exact (depositLoss_le_one_iff_mod hpos (by omega)).2 (h.resolve_left hpos.ne')
  | donate a => exact Nat.zero_le 1
  | mint n | redeem n | withdraw a => exact le_rfl

/-- A deposit is fair if and only if its shares are worth all its assets but one. -/
theorem fair_iff_worth (hle : v.totalSupply ≤ v.totalUnderlying) {v' : Vault} {user dst : Address}
    {a m : ℕ} (h : v.deposit user a dst = .ok (v', m)) :
    v.Fair (.deposit a) ↔ (a - 1) * v'.totalSupply ≤ m * v'.totalUnderlying := by
  have hd := deposit_eq_ok h
  rw [hd.supply, hd.total]
  rcases hd.shares with ⟨h0, rfl⟩ | ⟨hS, hT, rfl⟩
  · refine iff_of_true (.inl h0) ?_
    rw [h0, Nat.zero_add, Nat.mul_comm m (_ + m)]
    exact Nat.mul_le_mul_right m (by omega)
  · have hmod : v.Fair (.deposit a) ↔ (v.totalUnderlying + 1) *
        (a * v.totalSupply % v.totalUnderlying) ≤ v.totalSupply * (v.totalUnderlying + a) :=
      or_iff_right hS.ne'
    rw [hmod, ← depositLoss_le_one_iff_mod hS hT, depositLoss_le_one_iff_worth hS]

theorem Played.loss_le (h₀ : Fresh v₀) (h : Played v₀ log v) {e : Entry} (he : e ∈ log)
    (hfair : e.fair = true) : e.loss ≤ 1 := by
  induction h with
  | start => exact absurd he List.not_mem_nil
  | act user act hp _ _ _ ih =>
    rcases List.mem_cons.1 he with rfl | he
    · exact (of_decide_eq_true hfair).loss_le (hp.split h₀ user).supply_le
    · exact ih he
  | elsewhere t _ _ _ ih => exact ih he

theorem Played.lost_le_calls (h₀ : Fresh v₀) (h : Played v₀ log v) {u : Address}
    (hfair : ∀ e ∈ log, e.user ≠ u → e.fair = true) : lostByOthers u log ≤ callsOfOthers u log := by
  refine List.sum_le_sum fun e he => ?_
  obtain ⟨hmem, hother⟩ := List.mem_filter.1 he
  exact h.loss_le h₀ hmem (hfair e hmem (of_decide_eq_true hother).1)

/-- Where the deposits of the others are fair, nobody is paid more than it has put in, what the
others have given away, and one asset for every operation of the others ; and a deposit is fair
if and only if its shares are worth all its assets but one. -/
theorem paid_le_put_of_fair (h₀ : Fresh v₀) (h : Played v₀ log v) (u : Address) :
    ((∀ e ∈ log, e.user ≠ u → e.fair = true) →
      paidTo u log ≤ putBy u log + donatedByOthers u log + callsOfOthers u log) ∧
    ∀ user a v' m, v.deposit user a user = .ok (v', m) →
      (v.Fair (.deposit a) ↔ (a - 1) * v'.totalSupply ≤ m * v'.totalUnderlying) := by
  refine ⟨fun hfair => (paid_le_put h₀ h u).trans ?_, fun user a v' m hx => ?_⟩
  · exact Nat.add_le_add_left (h.lost_le_calls h₀ hfair) _
  · exact fair_iff_worth (h.split h₀ u).supply_le hx

/-! ## Computed runs -/

/-- Some acts with their users, one after the other. -/
def playActs : List Entry × Vault → List (Address × Act) → Tx (List Entry × Vault)
  | r, [] => .ok r
  | r, e :: acts => do
    require (e.1 ≠ r.2.self ∧ e.1 ≠ r.2.strategy) ""
    let v ← r.2.perform e.1 e.2
    playActs (Entry.of r.2 v e.1 e.2 :: r.1, v) acts

theorem Played.playActs {r r' : List Entry × Vault} {acts : List (Address × Act)}
    (h : Played v₀ r.1 r.2) (hp : playActs r acts = .ok r') : Played v₀ r'.1 r'.2 := by
  induction acts generalizing r with
  | nil =>
    cases hp
    exact h
  | cons e acts ih =>
    obtain ⟨hu, hp⟩ := require_bind_eq_ok.1 hp
    obtain ⟨v, hx, hp⟩ := bind_eq_ok.1 hp
    exact ih (r := (Entry.of r.2 v e.1 e.2 :: r.1, v)) (.act e.1 e.2 h hu.1 hu.2 hx) hp

/-- The entries and the vault after some acts. -/
def afterActs (v : Vault) (acts : List (Address × Act)) : List Entry × Vault :=
  match playActs ([], v) acts with
  | .ok r => r
  | .error _ => ([], v)

theorem Played.afterActs (acts : List (Address × Act))
    (hr : (Compounder.playActs ([], v₀) acts).returns = true) :
    Played v₀ (afterActs v₀ acts).1 (afterActs v₀ acts).2 := by
  obtain ⟨r, hx⟩ := Tx.exists_ok hr
  rw [Compounder.afterActs, hx]
  exact Played.playActs (r := ([], v₀)) .start hx

/-- An empty vault without a penalty, of a token that the accounts 1 and 2 hold. -/
def freshVault : Vault :=
  let v := Vault.initial 0
  let v := { v with withdrawalPenalty := 0 }
  match v.underlying.transfer 1 2 (10 ^ 29) with
  | .ok underlying => { v with underlying }
  | .error _ => v

theorem freshVault_fresh : Fresh freshVault :=
  ⟨by decide +kernel, by decide +kernel, by decide +kernel, by decide +kernel, by decide +kernel,
    by decide +kernel⟩

/-- A deposit of 10 assets for 6 shares, which are worth more than 9 : the first depositor
gets its 15 assets. -/
theorem paid_le_put_of_fair_run : ∃ log : List Entry,
    paidTo 1 log = 15 ∧ putBy 1 log = 15 ∧ callsOfOthers 1 log = 1 ∧
      paidTo 1 log ≤ putBy 1 log + donatedByOthers 1 log + callsOfOthers 1 log := by
  let acts : List (Address × Act) :=
    [(1, .deposit 10), (1, .donate 5), (2, .deposit 10), (1, .redeem 10)]
  obtain ⟨hle, -⟩ :=
    paid_le_put_of_fair freshVault_fresh (Played.afterActs acts (by decide +kernel)) 1
  exact ⟨(afterActs freshVault acts).1, by decide +kernel, by decide +kernel, by decide +kernel,
    hle (by decide +kernel)⟩

/-- The rounding of the deposit of another user can take more than one asset : the first
depositor puts in 101 assets and is paid 151. -/
theorem deposit_captured : ¬∀ {v₀ v : Vault} {log : List Entry}, Fresh v₀ → Played v₀ log v →
    ∀ u, paidTo u log ≤ putBy u log + donatedByOthers u log + callsOfOthers u log := by
  intro h
  let acts : List (Address × Act) :=
    [(1, .deposit 1), (1, .donate 100), (2, .deposit 201), (1, .redeem 1)]
  have hle := h freshVault_fresh (Played.afterActs acts (by decide +kernel)) 1
  exact absurd hle (by decide +kernel)

end Aura.Compounder
