import Aura.Compounder.Vault

/-!
# GenericUnionVault : the price of a share

What the functions of the vault do to the pool (`Deposited`, `Redeemed`, `Flow`), and from it
that the pool always holds at least one asset for every share, that the price of a share
never falls, and that nobody gains by depositing and redeeming at once (`share_price`).
-/

open Evm Function SharePool

namespace Aura.Compounder

namespace Vault

variable {v v' : Vault} {sender owner receiver : Address} {a m n x : ℕ}

/-! ## What the functions do -/

/-- The addresses and the penalty are unchanged. -/
structure SameConfig (v v' : Vault) : Prop where
  self : v'.self = v.self
  owner : v'.owner = v.owner
  strategy : v'.strategy = v.strategy
  withdrawalPenalty : v'.withdrawalPenalty = v.withdrawalPenalty

/-- A deposit of `a` issued `m` shares. -/
structure Deposited (v v' : Vault) (receiver : Address) (a m : ℕ) : Prop where
  pos : 0 < a
  total : v'.totalUnderlying = v.totalUnderlying + a
  supply : v'.totalSupply = v.totalSupply + m
  balance : v'.shares.balanceOf =
    update v.shares.balanceOf receiver (v.shares.balanceOf receiver + m)
  allowance : v'.shares.allowance = v.shares.allowance
  shares : v.totalSupply = 0 ∧ m = a ∨
    0 < v.totalSupply ∧ 0 < v.totalUnderlying ∧ m = floorShares v.totalSupply v.totalUnderlying a
  config : SameConfig v v'

/-- `m` shares were burnt for `x`. -/
structure Redeemed (v v' : Vault) (sender owner : Address) (m x : ℕ) : Prop where
  allowed : sender = owner ∨ m ≤ v.shares.allowance owner sender
  pos : 0 < v.totalSupply
  le : m ≤ v.shares.balanceOf owner
  supply : v'.totalSupply + m = v.totalSupply
  balance : v'.shares.balanceOf =
    update v.shares.balanceOf owner (v.shares.balanceOf owner - m)
  allowance : ∀ a b, v'.shares.allowance a b ≤ v.shares.allowance a b
  paid : v'.totalSupply = 0 ∧ v'.totalUnderlying = 0 ∨
    0 < v'.totalSupply ∧ v'.totalUnderlying + x = v.totalUnderlying ∧
      x * v.totalSupply ≤ m * v.totalUnderlying
  config : SameConfig v v'

theorem sharesFor_eq_ok (h : v.sharesFor a = .ok m) : v.totalSupply = 0 ∧ m = a ∨
    0 < v.totalSupply ∧ 0 < v.totalUnderlying ∧
      m = floorShares v.totalSupply v.totalUnderlying a := by
  unfold sharesFor at h
  split_ifs at h with h0
  · cases h
    exact .inl ⟨h0, rfl⟩
  · obtain ⟨y, hy, h⟩ := bind_eq_ok.1 h
    obtain ⟨-, rfl⟩ := umul_eq_ok.1 hy
    obtain ⟨hne, rfl⟩ := udiv_eq_ok.1 h
    exact .inr ⟨Nat.pos_of_ne_zero h0, Nat.pos_of_ne_zero hne, rfl⟩

theorem stake_eq_ok (h : v.stake a = .ok v') :
    v' = { v with totalUnderlying := v.totalUnderlying + a } := by
  unfold stake at h
  obtain ⟨t, ht, h⟩ := bind_eq_ok.1 h
  obtain ⟨-, rfl⟩ := uadd_eq_ok.1 ht
  cases h
  rfl

theorem harvest_eq_ok (h : v.harvest = .ok v') :
    v' = { v with totalUnderlying := v.totalUnderlying + v.gains, gains := 0 } := by
  unfold harvest at h
  obtain ⟨t, ht, h⟩ := bind_eq_ok.1 h
  obtain ⟨-, rfl⟩ := uadd_eq_ok.1 ht
  cases h
  rfl

theorem unstake_eq_ok (h : v.unstake x = .ok v') :
    v'.totalUnderlying + x = v.totalUnderlying ∧ v'.shares = v.shares ∧ SameConfig v v' := by
  unfold unstake at h
  obtain ⟨t, ht, h⟩ := bind_eq_ok.1 h
  obtain ⟨hle, rfl⟩ := usub_eq_ok.1 ht
  obtain ⟨u, -, h⟩ := bind_eq_ok.1 h
  cases h
  exact ⟨Nat.sub_add_cancel hle, rfl, rfl, rfl, rfl, rfl⟩

theorem deposit_eq_ok (h : v.deposit sender a receiver = .ok (v', m)) :
    Deposited v v' receiver a m := by
  unfold deposit at h
  obtain ⟨-, -, h⟩ := bind_eq_ok.1 h
  obtain ⟨hpos, h⟩ := require_bind_eq_ok.1 h
  obtain ⟨k, hk, h⟩ := bind_eq_ok.1 h
  obtain ⟨u, -, h⟩ := bind_eq_ok.1 h
  obtain ⟨v₁, h₁, h⟩ := bind_eq_ok.1 h
  obtain ⟨t, ht, h⟩ := bind_eq_ok.1 h
  obtain rfl := stake_eq_ok h₁
  cases h
  obtain ⟨-, hbal, hsup⟩ := Erc20.mint_eq_ok ht
  exact ⟨hpos, rfl, hsup, hbal, Erc20.mint_allowance ht, sharesFor_eq_ok hk, rfl, rfl, rfl, rfl⟩

/-- What the end of a withdrawal pays : everything, or at most `y`. -/
theorem payOut_eq_ok {y : ℕ} (h : v.payOut y = .ok (v', x)) :
    v'.shares = v.shares ∧ SameConfig v v' ∧
      (v.totalSupply = 0 ∧ v'.totalUnderlying = 0 ∨
        0 < v.totalSupply ∧ v'.totalUnderlying + x = v.totalUnderlying ∧ x ≤ y) := by
  unfold payOut at h
  split_ifs at h with h0
  · obtain ⟨v₁, h₁, h⟩ := bind_eq_ok.1 h
    obtain ⟨v₂, h₂, h⟩ := bind_eq_ok.1 h
    cases h
    obtain ⟨ht, hs, hc⟩ := unstake_eq_ok h₂
    obtain rfl := harvest_eq_ok h₁
    exact ⟨hs, ⟨hc.self, hc.owner, hc.strategy, hc.withdrawalPenalty⟩, .inl ⟨h0, by omega⟩⟩
  · obtain ⟨p, -, h⟩ := bind_eq_ok.1 h
    obtain ⟨w, hw, h⟩ := bind_eq_ok.1 h
    obtain ⟨-, rfl⟩ := usub_eq_ok.1 hw
    obtain ⟨v₁, h₁, h⟩ := bind_eq_ok.1 h
    cases h
    obtain ⟨ht, hs, hc⟩ := unstake_eq_ok h₁
    exact ⟨hs, hc, .inr ⟨Nat.pos_of_ne_zero h0, ht, Nat.sub_le _ _⟩⟩

theorem spendShares_eq_ok {t : Erc20 Address} (h : v.spendShares sender owner m = .ok t) :
    t.balanceOf = v.shares.balanceOf ∧ t.totalSupply = v.totalSupply ∧
      (sender = owner ∨ m ≤ v.shares.allowance owner sender) ∧
      ∀ a b, t.allowance a b ≤ v.shares.allowance a b := by
  unfold spendShares at h
  split_ifs at h with hs
  · obtain ⟨hm, h⟩ := require_bind_eq_ok.1 h
    obtain ⟨hb, hsup⟩ := Erc20.approve_eq_ok h
    refine ⟨hb, hsup, .inr hm, fun a b => ?_⟩
    rw [Erc20.approve_allowance h]
    split_ifs with hab
    · rw [hab.1, hab.2]
      exact Nat.sub_le _ _
    · exact le_rfl
  · cases h
    exact ⟨rfl, rfl, .inl (not_not.1 hs), fun _ _ => le_rfl⟩

theorem redeem_eq_ok (h : v.redeem sender m receiver owner = .ok (v', x)) :
    Redeemed v v' sender owner m x := by
  unfold redeem at h
  obtain ⟨-, -, h⟩ := bind_eq_ok.1 h
  obtain ⟨-, -, h⟩ := bind_eq_ok.1 h
  obtain ⟨t, ht, h⟩ := bind_eq_ok.1 h
  obtain ⟨r, hr, h⟩ := bind_eq_ok.1 h
  obtain ⟨u, -, h⟩ := bind_eq_ok.1 h
  cases h
  obtain ⟨htb, hts, hallowed, hta⟩ := spendShares_eq_ok ht
  unfold _withdraw at hr
  obtain ⟨hpos, hr⟩ := require_bind_eq_ok.1 hr
  obtain ⟨z, hz, hr⟩ := bind_eq_ok.1 hr
  obtain ⟨-, rfl⟩ := umul_eq_ok.1 hz
  obtain ⟨y, hy, hr⟩ := bind_eq_ok.1 hr
  obtain ⟨-, rfl⟩ := udiv_eq_ok.1 hy
  obtain ⟨s, hs, hr⟩ := bind_eq_ok.1 hr
  obtain ⟨hle, hbal, hsup⟩ := Erc20.burn_eq_ok hs
  obtain ⟨hshares, hc, hpaid⟩ := payOut_eq_ok hr
  dsimp only at hpos hle hbal hsup hpaid hshares
  have hS : t.totalSupply = v.totalSupply := hts
  have hpos' : 0 < v.totalSupply := hts ▸ hpos
  rw [htb] at hle hbal
  refine ⟨hallowed, hpos', hle, ?_, ?_, fun a b => ?_, ?_,
    ⟨hc.self, hc.owner, hc.strategy, hc.withdrawalPenalty⟩⟩
  · show r.1.shares.totalSupply + m = _
    rw [hshares, hsup, hS]
  · show r.1.shares.balanceOf = _
    rw [hshares, hbal]
  · show r.1.shares.allowance a b ≤ _
    rw [hshares, Erc20.burn_allowance hs]
    exact hta a b
  · rcases hpaid with ⟨h0, hT⟩ | ⟨h0, hT, hx⟩
    · refine .inl ⟨?_, hT⟩
      show r.1.shares.totalSupply = 0
      rw [hshares]
      exact h0
    · refine .inr ⟨?_, hT, ?_⟩
      · show 0 < r.1.shares.totalSupply
        rw [hshares]
        exact h0
      · have hx' : r.2 ≤ m * v.totalUnderlying / v.totalSupply := hS ▸ hx
        exact (Nat.le_div_iff_mul_le hpos').1 hx'

/-! ## What a call does -/

/-- What a step can do to the pool and to the shares of the users. -/
inductive Flow (v v' : Vault) (sender : Address) : Prop
  | deposited (receiver : Address) (a m : ℕ) : Deposited v v' receiver a m → Flow v v' sender
  | redeemed (owner : Address) (m x : ℕ) : Redeemed v v' sender owner m x → Flow v v' sender
  | moved (src dst : Address) (n : ℕ) : sender = src ∨ n ≤ v.shares.allowance src sender →
      v'.totalSupply = v.totalSupply → v'.totalUnderlying = v.totalUnderlying →
        v'.shares.balanceOf = move v.shares.balanceOf src dst n → Flow v v' sender
  | raised : v'.totalSupply = v.totalSupply → v.totalUnderlying ≤ v'.totalUnderlying →
      v'.shares.balanceOf = v.shares.balanceOf → Flow v v' sender

theorem state_eq_ok {r : Tx (Vault × ℕ)} (h : state r = .ok v') : ∃ x, r = .ok (v', x) := by
  obtain ⟨⟨w, x⟩, hr, h⟩ := bind_eq_ok.1 h
  cases h
  exact ⟨x, hr⟩

theorem exec_flow {c : VaultCall} (h : v.exec sender c = .ok v') : Flow v v' sender := by
  cases c with
  | deposit a r =>
    obtain ⟨m, h⟩ := state_eq_ok h
    exact .deposited r a m (deposit_eq_ok h)
  | mint n r =>
    obtain ⟨m, h⟩ := state_eq_ok h
    obtain ⟨a, -, h⟩ := bind_eq_ok.1 h
    exact .deposited r a m (deposit_eq_ok h)
  | redeem n r o =>
    obtain ⟨x, h⟩ := state_eq_ok h
    exact .redeemed o n x (redeem_eq_ok h)
  | withdraw a r o =>
    obtain ⟨x, h⟩ := state_eq_ok h
    obtain ⟨m, -, h⟩ := bind_eq_ok.1 h
    exact .redeemed o m x (redeem_eq_ok h)
  | harvest =>
    obtain rfl := harvest_eq_ok h
    exact .raised rfl (Nat.le_add_right _ _) rfl
  | setWithdrawalPenalty p =>
    obtain ⟨-, h⟩ := require_bind_eq_ok.1 h
    obtain ⟨-, h⟩ := require_bind_eq_ok.1 h
    cases h
    exact .raised rfl le_rfl rfl
  | transfer r n =>
    obtain ⟨t, ht, h⟩ := bind_eq_ok.1 h
    cases h
    obtain ⟨-, -, -, hb, -, hs⟩ := Erc20.transfer_eq_ok ht
    exact .moved sender r n (.inl rfl) hs rfl hb
  | approve s n =>
    obtain ⟨t, ht, h⟩ := bind_eq_ok.1 h
    cases h
    obtain ⟨hb, hs⟩ := Erc20.approve_eq_ok ht
    exact .raised hs le_rfl hb
  | transferFrom o r n =>
    obtain ⟨t, ht, h⟩ := bind_eq_ok.1 h
    cases h
    obtain ⟨-, -, hb, hs⟩ := Erc20.transferFrom_eq_ok ht
    exact .moved o r n (.inr (Erc20.transferFrom_allowance ht).1) hs rfl hb

/-- A call raises no allowance but those of its sender. -/
theorem exec_allowance {c : VaultCall} (h : v.exec sender c = .ok v') {a : Address}
    (ha : a ≠ sender) (b : Address) : v'.shares.allowance a b ≤ v.shares.allowance a b := by
  cases c with
  | deposit _ _ =>
    obtain ⟨_, h⟩ := state_eq_ok h
    rw [(deposit_eq_ok h).allowance]
  | mint _ _ =>
    obtain ⟨_, h⟩ := state_eq_ok h
    obtain ⟨_, -, h⟩ := bind_eq_ok.1 h
    rw [(deposit_eq_ok h).allowance]
  | redeem _ _ _ =>
    obtain ⟨_, h⟩ := state_eq_ok h
    exact (redeem_eq_ok h).allowance a b
  | withdraw _ _ _ =>
    obtain ⟨_, h⟩ := state_eq_ok h
    obtain ⟨_, -, h⟩ := bind_eq_ok.1 h
    exact (redeem_eq_ok h).allowance a b
  | harvest =>
    obtain rfl := harvest_eq_ok h
    exact le_rfl
  | setWithdrawalPenalty _ =>
    obtain ⟨-, h⟩ := require_bind_eq_ok.1 h
    obtain ⟨-, h⟩ := require_bind_eq_ok.1 h
    cases h
    exact le_rfl
  | transfer _ _ =>
    obtain ⟨t, ht, h⟩ := bind_eq_ok.1 h
    cases h
    obtain ⟨-, -, -, -, hall, -⟩ := Erc20.transfer_eq_ok ht
    exact (congrFun (congrFun hall a) b).le
  | approve s n =>
    obtain ⟨t, ht, h⟩ := bind_eq_ok.1 h
    cases h
    show t.allowance a b ≤ _
    rw [Erc20.approve_allowance ht, if_neg fun hab => ha hab.1]
  | transferFrom _ _ _ =>
    obtain ⟨t, ht, h⟩ := bind_eq_ok.1 h
    cases h
    exact (Erc20.transferFrom_allowance ht).2 a b

/-! ## The price of a share -/

/-- What the step of a pool without shares, or without any left, is not asked. -/
theorem Flow.priceLe (h : Flow v v' sender) (hS : 0 < v.totalSupply) (hS' : 0 < v'.totalSupply) :
    PriceLe v.totalSupply v.totalUnderlying v'.totalSupply v'.totalUnderlying := by
  cases h with
  | deposited r a m hd =>
    rw [hd.supply, hd.total]
    refine .deposit ?_
    rcases hd.shares with ⟨h0, -⟩ | ⟨-, -, rfl⟩
    · omega
    · exact floorShares_mul_le _ _ _
  | redeemed o m x hr =>
    rcases hr.paid with ⟨h0, -⟩ | ⟨-, hT, hx⟩
    · omega
    · rw [show v'.totalSupply = v.totalSupply - m by have := hr.supply; omega,
        show v'.totalUnderlying = v.totalUnderlying - x by omega]
      exact .withdraw hx
  | moved _ _ _ _ hs ht _ =>
    rw [hs, ht]
    exact le_rfl
  | raised hs ht _ =>
    rw [hs]
    exact .gain ht

/-- Every share has an asset. -/
theorem Flow.supply_le (h : Flow v v' sender) (hle : v.totalSupply ≤ v.totalUnderlying) :
    v'.totalSupply ≤ v'.totalUnderlying := by
  rcases Nat.eq_zero_or_pos v'.totalSupply with h0 | hpos'
  · omega
  rcases Nat.eq_zero_or_pos v.totalSupply with h0 | hpos
  · cases h with
    | deposited r a m hd =>
      have hs := hd.supply
      have ht := hd.total
      rcases hd.shares with ⟨-, rfl⟩ | ⟨hpos, -⟩
      · omega
      · omega
    | redeemed o m x hr => exact absurd hr.pos (by omega)
    | moved _ _ _ _ hs ht _ => omega
    | raised hs ht _ => omega
  · have hp := h.priceLe hpos hpos'
    refine Nat.le_of_mul_le_mul_right ?_ hpos
    calc v'.totalSupply * v.totalSupply ≤ v'.totalSupply * v.totalUnderlying :=
          Nat.mul_le_mul_left _ hle
      _ = v.totalUnderlying * v'.totalSupply := Nat.mul_comm _ _
      _ ≤ v'.totalUnderlying * v.totalSupply := hp

/-- What others do around the vault : the strategy gains, donations raise what is staked,
and the underlying token moves. -/
structure Elsewhere (v v' : Vault) : Prop where
  config : SameConfig v v'
  shares : v'.shares = v.shares
  total : v.totalUnderlying ≤ v'.totalUnderlying

theorem Elsewhere.flow (h : Elsewhere v v') (sender : Address) : Flow v v' sender :=
  .raised (congrArg Erc20.totalSupply h.shares) h.total (congrArg Erc20.balanceOf h.shares)

/-- One step of the vault. -/
inductive Step (v v' : Vault) : Prop
  | call (sender : Address) (c : VaultCall) : v.exec sender c = .ok v' → Step v v'
  | elsewhere : Elsewhere v v' → Step v v'

theorem Step.flow (h : Step v v') : ∃ sender, Flow v v' sender := by
  cases h with
  | call sender c hx => exact ⟨sender, exec_flow hx⟩
  | elsewhere he => exact ⟨0, he.flow 0⟩

/-- A run. -/
inductive Steps (v : Vault) : Vault → Prop
  | refl : Steps v v
  | tail {v₁ v₂ : Vault} : Steps v v₁ → Step v₁ v₂ → Steps v v₂

theorem Steps.supply_le {v₀ : Vault} (h₀ : v₀.totalSupply = 0) (h : Steps v₀ v) :
    v.totalSupply ≤ v.totalUnderlying := by
  induction h with
  | refl => omega
  | tail _ hstep ih =>
    obtain ⟨_, hf⟩ := hstep.flow
    exact hf.supply_le ih

/-- A conversion divides by zero only if something is zero. -/
theorem mulDiv_ne_divByZero {a b c : ℕ} (hc : 0 < c) (isRoundUp : Bool) :
    mulDiv a b c isRoundUp ≠ .error .divByZero := by
  unfold mulDiv umul
  split_ifs with h1 h2
  · rw [ok_bind, udiv_of hc.ne', ok_bind]
    unfold uadd
    split_ifs <;> simp
  · rw [ok_bind, udiv_of hc.ne', ok_bind]
    simp
  · simp
  · simp

/-- Shares redeemed at once are worth at most what was deposited for them. -/
theorem deposit_redeem_le {v₁ v₂ : Vault} {redeemer : Address}
    (hd : Deposited v v₁ receiver a m) (hr : Redeemed v₁ v₂ redeemer owner m x)
    (hS : 0 < v.totalSupply) : x ≤ a := by
  have hsup := hd.supply
  have hm : m * v.totalUnderlying ≤ a * v.totalSupply := by
    rcases hd.shares with ⟨h0, -⟩ | ⟨-, -, rfl⟩
    · omega
    · exact floorShares_mul_le _ _ _
  rcases hr.paid with ⟨h0, -⟩ | ⟨-, -, hx⟩
  · have := hr.supply
    omega
  · rw [hd.supply, hd.total] at hx
    refine Nat.le_of_mul_le_mul_right (hx.trans ?_) (show 0 < v.totalSupply + m by omega)
    rw [mul_add, mul_add, Nat.mul_comm m a]
    omega

/-! ## Computed runs -/

/-- Some calls with their senders, one after the other. -/
def play : Vault → List (Address × VaultCall) → Tx Vault
  | v, [] => .ok v
  | v, e :: log => v.exec e.1 e.2 >>= (play · log)

/-- The vault after some calls. -/
def after (v : Vault) (log : List (Address × VaultCall)) : Vault :=
  match v.play log with
  | .ok v' => v'
  | .error _ => v

theorem Steps.play {v₀ : Vault} {log : List (Address × VaultCall)} (h : Steps v₀ v)
    (hp : v.play log = .ok v') : Steps v₀ v' := by
  induction log generalizing v with
  | nil =>
    cases hp
    exact h
  | cons e log ih =>
    obtain ⟨v₁, hx, hp⟩ := bind_eq_ok.1 hp
    exact ih (h.tail (.call e.1 e.2 hx)) hp

theorem Steps.after {log : List (Address × VaultCall)} (hr : (v.play log).returns = true) :
    Steps v (v.after log) := by
  obtain ⟨v', hv⟩ := Tx.exists_ok hr
  rw [Vault.after, hv]
  exact Steps.refl.play hv

/-- An account that makes no call gives no allowance. -/
theorem play_allowance {log : List (Address × VaultCall)} (h : v.play log = .ok v') {a : Address}
    (ha : ∀ e ∈ log, a ≠ e.1) (b : Address) : v'.shares.allowance a b ≤ v.shares.allowance a b := by
  induction log generalizing v with
  | nil =>
    cases h
    exact le_rfl
  | cons e log ih =>
    obtain ⟨v₁, hx, h⟩ := bind_eq_ok.1 h
    obtain ⟨he, hlog⟩ := List.forall_mem_cons.1 ha
    exact (ih h hlog).trans (exec_allowance hx he b)

theorem after_allowance {log : List (Address × VaultCall)} {a : Address}
    (ha : ∀ e ∈ log, a ≠ e.1) (b : Address) :
    (v.after log).shares.allowance a b ≤ v.shares.allowance a b := by
  unfold after
  split
  · next v' hv => exact play_allowance hv ha b
  · exact le_rfl

/-- A vault just deployed at the address 500 by the account 300, with a strategy at 501 that
already has what it will gain, of a token of which the account 1 holds the rest and everybody
has approved everybody. -/
def initial (gains : ℕ) : Vault :=
  let token := Erc20.single 1 (10 ^ 30) Erc20.single_supply_lt fun _ _ => 2 ^ 256 - 1
  { self := 500
    owner := 300
    strategy := 501
    withdrawalPenalty := 100
    shares := Erc20.empty
    underlying := match token.transfer 1 501 gains with
      | .ok t => t
      | .error _ => token
    totalUnderlying := 0
    gains := gains }

end Vault

open Vault

/-- The pool holds an asset for every share, so that nothing divides by zero while there are
shares; no step lowers the price of a share; and redeeming the shares of a deposit at once
pays at most the deposit. -/
theorem share_price {v₀ v : Vault} (h₀ : v₀.totalSupply = 0) (h : Steps v₀ v) :
    v.totalSupply ≤ v.totalUnderlying ∧
      (0 < v.totalSupply → ∀ n b, v.sharesFor n ≠ .error .divByZero ∧
        v._convertToShares n b ≠ .error .divByZero ∧
          v._convertToAssets n b ≠ .error .divByZero) ∧
      (∀ v', Step v v' → 0 < v.totalSupply → 0 < v'.totalSupply →
        v.totalUnderlying * v'.totalSupply ≤ v'.totalUnderlying * v.totalSupply) ∧
      (0 < v.totalSupply → ∀ depositor a receiver v₁ m,
        v.deposit depositor a receiver = .ok (v₁, m) →
          ∀ sender dst owner v₂ x, v₁.redeem sender m dst owner = .ok (v₂, x) → x ≤ a) := by
  have hle := h.supply_le h₀
  refine ⟨hle, fun hS n b => ⟨?_, ?_, ?_⟩, fun v' hstep hS hS' => ?_, ?_⟩
  · unfold sharesFor
    rw [if_neg hS.ne', Ne, bind_eq_error]
    rintro (hx | ⟨x, -, hx⟩)
    · unfold umul at hx
      split_ifs at hx
      cases hx
    · rw [udiv_of (by omega)] at hx
      cases hx
  · unfold _convertToShares
    rw [if_neg hS.ne']
    exact mulDiv_ne_divByZero (by omega) b
  · unfold _convertToAssets
    rw [if_neg hS.ne']
    exact mulDiv_ne_divByZero hS b
  · obtain ⟨_, hf⟩ := hstep.flow
    exact hf.priceLe hS hS'
  · intro hS depositor a receiver v₁ m hd sender dst owner v₂ x hr
    exact deposit_redeem_le (deposit_eq_ok hd) (redeem_eq_ok hr) hS

/-- The account 1 deposits, the strategy gains, and it withdraws some of it. The strategy has
what the vault counts. -/
theorem share_price_run : ∃ v : Vault, v.totalSupply ≤ v.totalUnderlying ∧
    v.totalUnderlying ≤ v.underlying.balanceOf v.strategy := by
  let calls : List (Address × VaultCall) :=
    [(1, .deposit 10 1), (2, .harvest), (1, .mint 3 2), (1, .withdraw 5 1 1)]
  exact ⟨(Vault.initial 7).after calls, (share_price rfl (.after (by decide +kernel))).1,
    by decide +kernel⟩

end Aura.Compounder
