import Aura.AuraMath

/-!
# Gauges : StashRewardDistro

`StashRewardDistro.sol`, which keeps rewards of the pools for the coming epochs. Anyone can
fund a pool, forward the funds of an epoch that has begun to the stash of the pool, and kick
a pool whose rewards have been queued and not started.
-/

open Evm Function

namespace Aura.Gauges

structure StashRewardDistro where
  /-- `address(this)`. -/
  self : Address
  /-- Epoch, pool, token : amount. -/
  getFunds : ℕ → ℕ → Address → ℕ

namespace StashRewardDistro

/-- `EPOCH_DURATION`. -/
def epochDuration : ℕ := 86400 * 7

/-- One round of the loop of `fundPool`, in an epoch. -/
def fundPeriod (_pid : ℕ) (_token : Address) (epochAmount : ℕ)
    (r : (ℕ → ℕ → Address → ℕ) × ℕ) : Tx ((ℕ → ℕ → Address → ℕ) × ℕ) := do
  let epoch := r.2
  let n ← AuraMath.add (r.1 epoch _pid _token) epochAmount
  let next ← uadd 256 epoch 1
  .ok (update r.1 epoch (update (r.1 epoch) _pid (update (r.1 epoch _pid) _token n)), next)

/-- `fundPool` called by `sender`, and the ledgers of the tokens. -/
def fundPool (d : StashRewardDistro) (now : ℕ) (tokens : Address → Erc20 Address)
    (sender : Address) (_pid : ℕ) (_token : Address) (_amount _periods : ℕ) :
    Tx (StashRewardDistro × (Address → Erc20 Address)) := do
  let rewardAmount ← usub _amount _periods
  let epoch ← AuraMath.add (now / epochDuration) 1
  let epochAmount ← AuraMath.div rewardAmount _periods
  let r ← (List.range _periods).foldlM
    (fun r _ => fundPeriod _pid _token epochAmount r) (d.getFunds, epoch)
  let t ← (tokens _token).transferFrom d.self sender d.self _amount
  .ok ({ d with getFunds := r.1 }, update tokens _token t)

/-- The contracts of the pools that the distributor reads. -/
structure Pools where
  /-- `booster.poolInfo(_pid).stash`. -/
  stash : ℕ → Address
  /-- `stash.tokenInfo(_token)`, the contract of the virtual rewards. -/
  tokenInfo : Address → Address → Address
  periodFinish : Address → ℕ
  queuedRewards : Address → ℕ

/-- `getFunds[_epoch][_pid][_token] = amount`. -/
def setFunds (d : StashRewardDistro) (_epoch _pid : ℕ) (_token : Address) (amount : ℕ) :
    StashRewardDistro :=
  { d with
    getFunds := update d.getFunds _epoch
      (update (d.getFunds _epoch) _pid (update (d.getFunds _epoch _pid) _token amount)) }

/-- `_queueRewards`, and the ledgers of the tokens. -/
def _queueRewards (d : StashRewardDistro) (pools : Pools) (tokens : Address → Erc20 Address)
    (_epoch _pid : ℕ) (_token : Address) :
    Tx (StashRewardDistro × (Address → Erc20 Address)) := do
  let amount := d.getFunds _epoch _pid _token
  require (amount ≠ 0) "!amount"
  let t ← (tokens _token).transfer d.self (pools.stash _pid) amount
  .ok (d.setFunds _epoch _pid _token 0, update tokens _token t)

/-- The `queueRewards` of the current epoch. -/
def queueRewards (d : StashRewardDistro) (now : ℕ) (pools : Pools)
    (tokens : Address → Erc20 Address) (_pid : ℕ) (_token : Address) :
    Tx (StashRewardDistro × (Address → Erc20 Address)) :=
  d._queueRewards pools tokens (now / epochDuration) _pid _token

/-- The `queueRewards` of an epoch. -/
def queueRewardsOf (d : StashRewardDistro) (now : ℕ) (pools : Pools)
    (tokens : Address → Erc20 Address) (_pid : ℕ) (_token : Address) (_epoch : ℕ) :
    Tx (StashRewardDistro × (Address → Erc20 Address)) := do
  require (_epoch ≤ now / epochDuration) "!epoch"
  d._queueRewards pools tokens _epoch _pid _token

/-- `processIdleRewards` up to the call of `booster.earmarkRewards`, which concerns other
contracts only. -/
def processIdleRewards (d : StashRewardDistro) (now : ℕ) (pools : Pools)
    (tokens : Address → Erc20 Address) (_pid : ℕ) (_token : Address) :
    Tx (Address → Erc20 Address) := do
  let stash := pools.stash _pid
  let rewards := pools.tokenInfo stash _token
  require (pools.periodFinish rewards < now) "!periodFinish"
  require (pools.queuedRewards rewards ≠ 0) "!queueRewards"
  let t ← (tokens _token).transfer d.self stash 1
  .ok (update tokens _token t)

/-- What `fundPool` takes. -/
theorem fundPool_eq_ok {d : StashRewardDistro} {now : ℕ} {tokens : Address → Erc20 Address}
    {sender token : Address} {pid n periods : ℕ}
    {r : StashRewardDistro × (Address → Erc20 Address)}
    (h : d.fundPool now tokens sender pid token n periods = .ok r) :
    r.1.self = d.self ∧ n ≤ (tokens token).balanceOf sender ∧
      (r.2 token).balanceOf = Evm.move (tokens token).balanceOf sender d.self n ∧
        ∀ k, k ≠ token → r.2 k = tokens k := by
  unfold fundPool at h
  obtain ⟨_, -, h⟩ := bind_eq_ok.1 h
  obtain ⟨_, -, h⟩ := bind_eq_ok.1 h
  obtain ⟨_, -, h⟩ := bind_eq_ok.1 h
  obtain ⟨_, -, h⟩ := bind_eq_ok.1 h
  obtain ⟨t, ht, h⟩ := bind_eq_ok.1 h
  cases h
  obtain ⟨-, hn, hb, -⟩ := Erc20.transferFrom_eq_ok ht
  refine ⟨rfl, hn, ?_, fun k hk => update_of_ne hk _ _⟩
  rw [← hb]
  exact congrArg Erc20.balanceOf (update_self _ _ _)

/-- One round adds to one entry. -/
theorem fundPeriod_eq_ok {pid n : ℕ} {token : Address} {r r' : (ℕ → ℕ → Address → ℕ) × ℕ}
    (h : fundPeriod pid token n r = .ok r') : r'.2 = r.2 + 1 ∧ ∀ e p k, r'.1 e p k =
      r.1 e p k + if k = token ∧ p = pid ∧ e = r.2 then n else 0 := by
  obtain ⟨m, hm, h⟩ := bind_eq_ok.1 h
  obtain ⟨next, hnext, h⟩ := bind_eq_ok.1 h
  cases h
  obtain ⟨-, rfl⟩ := uadd_eq_ok.1 hm
  obtain ⟨-, rfl⟩ := uadd_eq_ok.1 hnext
  refine ⟨rfl, fun e p k => ?_⟩
  dsimp only
  by_cases he : e = r.2
  · subst he
    by_cases hp : p = pid
    · subst hp
      by_cases hk : k = token
      · subst hk
        simp
      · simp [hk]
    · simp [hp]
  · simp [he]

/-- The loop of `fundPool` adds to the entries of the periods. -/
theorem fundPeriods_eq_ok {pid n : ℕ} {token : Address} {xs : List ℕ} :
    ∀ {r r' : (ℕ → ℕ → Address → ℕ) × ℕ},
      xs.foldlM (fun r _ => fundPeriod pid token n r) r = .ok r' → ∀ e p k, r'.1 e p k =
        r.1 e p k +
          if k = token ∧ p = pid ∧ r.2 ≤ e ∧ e < r.2 + xs.length then n else 0 := by
  induction xs with
  | nil =>
    intro r r' h e p k
    cases h
    rw [if_neg (by simp), Nat.add_zero]
  | cons x xs ih =>
    intro r r' h e p k
    rw [List.foldlM_cons] at h
    obtain ⟨r₁, h₁, h⟩ := bind_eq_ok.1 h
    obtain ⟨hnext, hadd⟩ := fundPeriod_eq_ok h₁
    rw [ih h, hadd, hnext, List.length_cons, Nat.add_assoc]
    congr 1
    -- the first period or a later one
    by_cases hk : k = token ∧ p = pid
    · simp only [hk, true_and]
      split_ifs <;> omega
    · have hne : ∀ q : Prop, ¬(k = token ∧ p = pid ∧ q) := fun q h => hk ⟨h.1, h.2.1⟩
      rw [if_neg (hne _), if_neg (hne _), if_neg (hne _)]

/-- What `fundPool` adds : the same amount for each of the coming periods. -/
theorem fundPool_getFunds {d : StashRewardDistro} {now : ℕ} {tokens : Address → Erc20 Address}
    {sender token : Address} {pid n periods : ℕ}
    {r : StashRewardDistro × (Address → Erc20 Address)}
    (h : d.fundPool now tokens sender pid token n periods = .ok r) (e p : ℕ) (k : Address) :
    r.1.getFunds e p k = d.getFunds e p k +
      if k = token ∧ p = pid ∧ now / epochDuration < e ∧ e ≤ now / epochDuration + periods then
        (n - periods) / periods
      else 0 := by
  obtain ⟨x, hx, h⟩ := bind_eq_ok.1 h
  obtain ⟨-, rfl⟩ := usub_eq_ok.1 hx
  obtain ⟨epoch, he, h⟩ := bind_eq_ok.1 h
  obtain ⟨-, rfl⟩ := uadd_eq_ok.1 he
  obtain ⟨a, ha, h⟩ := bind_eq_ok.1 h
  obtain ⟨-, rfl⟩ := udiv_eq_ok.1 ha
  obtain ⟨q, hq, h⟩ := bind_eq_ok.1 h
  obtain ⟨t, -, h⟩ := bind_eq_ok.1 h
  cases h
  have hiff : (now / epochDuration + 1 ≤ e ∧
      e < now / epochDuration + 1 + (List.range periods).length) ↔
        (now / epochDuration < e ∧ e ≤ now / epochDuration + periods) := by
    rw [List.length_range]
    omega
  have hloop := fundPeriods_eq_ok hq e p k
  simp only [hiff] at hloop
  exact hloop

end StashRewardDistro

end Aura.Gauges
