import Aura.Evm.Run
import Aura.FiniteSum
import Aura.Gauges.StashRewardDistro

/-!
# Gauges : the solvency of StashRewardDistro

`fundPool` keeps back a wei for every period, and what the division leaves. A kick of an idle
pool spends a wei, whichever pool and funder it comes from, and nothing counts the kicks. So
the distributor covers its funds exactly as long as there were no more kicks than what was
kept back, or sent to it, in that token (`solvent_iff`).
-/

open Evm Function FiniteSum

namespace Aura.Gauges.StashRewards

open StashRewardDistro (Pools epochDuration fundPeriod)

structure World where
  /-- `block.timestamp`. -/
  now : ℕ
  tokens : Address → Erc20 Address
  pools : Pools
  distro : StashRewardDistro
  /-- What others have sent to the distributor, which no function reads. -/
  donated : Address → ℕ

/-! ## Runs -/

/-- The functions of the distributor. -/
inductive Call where
  | fundPool (_pid : ℕ) (_token : Address) (_amount _periods : ℕ)
  | queueRewards (_pid : ℕ) (_token : Address)
  /-- The `queueRewards` of an epoch. -/
  | queueRewardsOf (_pid : ℕ) (_token : Address) (_epoch : ℕ)
  | processIdleRewards (_pid : ℕ) (_token : Address)
  deriving DecidableEq

/-- The world with another distributor and other tokens. -/
def World.with (w : World) (r : Tx (StashRewardDistro × (Address → Erc20 Address))) :
    Tx World := do
  let r ← r
  .ok { w with distro := r.1, tokens := r.2 }

/-- Run a call of `sender`. -/
def exec (w : World) (sender : Address) : Call → Tx World
  | .fundPool pid token n periods =>
    w.with (w.distro.fundPool w.now w.tokens sender pid token n periods)
  | .queueRewards pid token => w.with (w.distro.queueRewards w.now w.pools w.tokens pid token)
  | .queueRewardsOf pid token epoch =>
    w.with (w.distro.queueRewardsOf w.now w.pools w.tokens pid token epoch)
  | .processIdleRewards pid token => do
    let tokens ← w.distro.processIdleRewards w.now w.pools w.tokens pid token
    .ok { w with tokens }

/-- The balance of the distributor. -/
def World.held (w : World) (token : Address) : ℕ :=
  (w.tokens token).balanceOf w.distro.self

/-- No call comes from the zero account or the distributor itself. -/
def IsCaller (w : World) (a : Address) : Prop :=
  a ≠ 0 ∧ a ≠ w.distro.self

instance (w : World) (a : Address) : Decidable (IsCaller w a) :=
  inferInstanceAs (Decidable (_ ∧ _))

/-- Time passes, and the pools change in any way, also within `booster.earmarkRewards`. The
distributor approves nobody, so others only add to its balances. -/
structure Elsewhere (w w' : World) : Prop where
  now : w.now ≤ w'.now
  distro : w'.distro = w.distro
  stash : (∀ pid, w.pools.stash pid ≠ w.distro.self) →
    ∀ pid, w'.pools.stash pid ≠ w.distro.self
  held : ∀ token, w.held token ≤ w'.held token
  donated : ∀ token, w'.donated token = w.donated token + (w'.held token - w.held token)

/-- The distributor was just deployed. -/
structure Deployed (w : World) : Prop where
  self_ne : w.distro.self ≠ 0
  stash : ∀ pid, w.pools.stash pid ≠ w.distro.self
  getFunds : w.distro.getFunds = fun _ _ _ => 0
  donated : ∀ token, w.donated token = w.held token

/-- The distributor and its surroundings. -/
def system : System World Address Call where
  now := World.now
  IsCaller := IsCaller
  exec := exec
  Elsewhere := Elsewhere
  Deployed := Deployed

instance (w : World) (a : Address) : Decidable (system.IsCaller w a) :=
  inferInstanceAs (Decidable (IsCaller w a))

/-! ## What is funded, kept back and kicked -/

/-- The funds in a token, of all epochs and pools. -/
def fundsOf (getFunds : ℕ → ℕ → Address → ℕ) (token : Address) (x : ℕ × ℕ) : ℕ :=
  getFunds x.1 x.2 token

abbrev Log := List (Event Address Call)

/-- What a call keeps back of a token : the amount less what it assigns to the epochs. -/
def keptBack (token : Address) : Call → ℕ
  | .fundPool _ _token _amount _periods =>
    if _token = token then _amount - _periods * ((_amount - _periods) / _periods) else 0
  | _ => 0

/-- The wei of a token that a call spends on a kick. -/
def kick (token : Address) : Call → ℕ
  | .processIdleRewards _ _token => if _token = token then 1 else 0
  | _ => 0

def kept (token : Address) (log : Log) : ℕ :=
  (log.map fun e => keptBack token e.call).sum

def kicks (token : Address) (log : Log) : ℕ :=
  (log.map fun e => kick token e.call).sum

variable {w w' : World} {log : Log} {sender token : Address} {pid : ℕ}

theorem kept_append (token : Address) (log : Log) (e : Event Address Call) :
    kept token (log ++ [e]) = kept token log + keptBack token e.call := by
  simp [kept]

theorem kicks_append (token : Address) (log : Log) (e : Event Address Call) :
    kicks token (log ++ [e]) = kicks token log + kick token e.call := by
  simp [kicks]

/-! ## What each function does -/

/-- Writing an entry is a change of one value for its token, and none for the others. -/
theorem fundsOf_update (g : ℕ → ℕ → Address → ℕ) (epoch pid n : ℕ) (token k : Address) :
    fundsOf (update g epoch (update (g epoch) pid (update (g epoch pid) token n))) k =
      if k = token then update (fundsOf g k) (epoch, pid) n else fundsOf g k := by
  ext x
  obtain ⟨e, p⟩ := x
  unfold fundsOf
  by_cases he : e = epoch
  · subst he
    by_cases hp : p = pid
    · subst hp
      by_cases hk : k = token
      · subst hk
        simp
      · simp [hk]
    · have hne : (e, p) ≠ (e, pid) := fun h => hp (Prod.mk.inj h).2
      by_cases hk : k = token
      · simp [hk, hp, hne]
      · simp [hk, hp]
  · have hne : (e, p) ≠ (epoch, pid) := fun h => he (Prod.mk.inj h).1
    by_cases hk : k = token
    · simp [hk, he, hne]
    · simp [hk, he]

/-- The funds are finitely many. -/
def Finite (getFunds : ℕ → ℕ → Address → ℕ) : Prop :=
  ∀ token, (support (fundsOf getFunds token)).Finite

theorem Finite.update {g : ℕ → ℕ → Address → ℕ} (h : Finite g) (epoch pid : ℕ) (token : Address)
    (n : ℕ) :
    Finite (Function.update g epoch
      (Function.update (g epoch) pid (Function.update (g epoch pid) token n))) := by
  intro k
  rw [fundsOf_update]
  split_ifs
  · exact support_update_finite (h k) _ _
  · exact h k

/-- The loop of `fundPool` adds the amount of an epoch once for each period. -/
theorem fundPeriod_foldlM {n : ℕ} {xs : List ℕ} {r r' : (ℕ → ℕ → Address → ℕ) × ℕ}
    (hfin : Finite r.1)
    (h : xs.foldlM (fun r _ => fundPeriod pid token n r) r = .ok r') :
    Finite r'.1 ∧ ∀ k, total (fundsOf r'.1 k) =
      total (fundsOf r.1 k) + if k = token then xs.length * n else 0 := by
  induction xs generalizing r with
  | nil =>
    cases h
    exact ⟨hfin, fun k => by simp⟩
  | cons x xs ih =>
    rw [List.foldlM_cons] at h
    obtain ⟨r₁, h₁, h⟩ := bind_eq_ok.1 h
    obtain ⟨m, hm, h₁⟩ := bind_eq_ok.1 h₁
    obtain ⟨next, -, h₁⟩ := bind_eq_ok.1 h₁
    cases h₁
    obtain ⟨-, rfl⟩ := uadd_eq_ok.1 hm
    obtain ⟨hfin', htot⟩ := ih (hfin.update _ _ _ _) h
    refine ⟨hfin', fun k => ?_⟩
    rw [htot, fundsOf_update, List.length_cons]
    split_ifs with hk
    · subst hk
      have hsum := total_update_add (hfin k) (r.2, pid) (r.1 r.2 pid k + n)
      have hval : fundsOf r.1 k (r.2, pid) = r.1 r.2 pid k := rfl
      rw [Nat.add_mul, one_mul]
      omega
    · rfl

theorem fundPool_funds {d : StashRewardDistro} {now n periods : ℕ}
    {tokens : Address → Erc20 Address}
    {r : StashRewardDistro × (Address → Erc20 Address)} (hfin : Finite d.getFunds)
    (h : d.fundPool now tokens sender pid token n periods = .ok r) :
    periods ≤ n ∧ Finite r.1.getFunds ∧ ∀ k, total (fundsOf r.1.getFunds k) =
      total (fundsOf d.getFunds k) +
        if k = token then periods * ((n - periods) / periods) else 0 := by
  obtain ⟨x, hx, h⟩ := bind_eq_ok.1 h
  obtain ⟨epoch, -, h⟩ := bind_eq_ok.1 h
  obtain ⟨epochAmount, ha, h⟩ := bind_eq_ok.1 h
  obtain ⟨r₁, hr, h⟩ := bind_eq_ok.1 h
  obtain ⟨t, -, h⟩ := bind_eq_ok.1 h
  cases h
  obtain ⟨hle, rfl⟩ := usub_eq_ok.1 hx
  obtain ⟨-, rfl⟩ := udiv_eq_ok.1 ha
  obtain ⟨hfin', htot⟩ := fundPeriod_foldlM (r := (d.getFunds, epoch)) hfin hr
  rw [List.length_range] at htot
  exact ⟨hle, hfin', htot⟩

theorem _queueRewards_eq_ok {d : StashRewardDistro} {pools : Pools}
    {tokens : Address → Erc20 Address} {epoch : ℕ}
    {r : StashRewardDistro × (Address → Erc20 Address)}
    (h : d._queueRewards pools tokens epoch pid token = .ok r) : ∃ t,
    (tokens token).transfer d.self (pools.stash pid) (d.getFunds epoch pid token) = .ok t ∧
      r = (d.setFunds epoch pid token 0, update tokens token t) := by
  obtain ⟨-, h⟩ := require_bind_eq_ok.1 h
  obtain ⟨t, ht, h⟩ := bind_eq_ok.1 h
  exact ⟨t, ht, (Except.ok.inj h).symm⟩

theorem processIdleRewards_eq_ok {d : StashRewardDistro} {pools : Pools} {now : ℕ}
    {tokens tokens' : Address → Erc20 Address}
    (h : d.processIdleRewards now pools tokens pid token = .ok tokens') :
    ∃ t, (tokens token).transfer d.self (pools.stash pid) 1 = .ok t ∧
      tokens' = update tokens token t := by
  obtain ⟨-, h⟩ := require_bind_eq_ok.1 h
  obtain ⟨-, h⟩ := require_bind_eq_ok.1 h
  obtain ⟨t, ht, h⟩ := bind_eq_ok.1 h
  exact ⟨t, ht, (Except.ok.inj h).symm⟩

/-! ## The account of a token -/

/-- What the distributor got is what it holds and what it has spent on kicks. -/
structure Accounted (log : Log) (w : World) : Prop where
  self_ne : w.distro.self ≠ 0
  stash : ∀ pid, w.pools.stash pid ≠ w.distro.self
  finite : Finite w.distro.getFunds
  held : ∀ token, w.held token + kicks token log =
    total (fundsOf w.distro.getFunds token) + kept token log + w.donated token

theorem Accounted.deployed (h : Deployed w) : Accounted [] w := by
  have hzero : ∀ token, fundsOf w.distro.getFunds token = fun _ => 0 := fun token => by
    rw [h.getFunds]
    rfl
  refine ⟨h.self_ne, h.stash, fun token => ?_, fun token => ?_⟩
  · rw [hzero]
    simp
  · rw [hzero, total_zero, h.donated]
    simp [kicks, kept]

theorem Accounted.elsewhere (h : Accounted log w) (he : Elsewhere w w') : Accounted log w' := by
  refine ⟨?_, fun pid => ?_, ?_, fun token => ?_⟩
  · rw [he.distro]
    exact h.self_ne
  · rw [he.distro]
    exact he.stash h.stash pid
  · rw [he.distro]
    exact h.finite
  · have hheld := h.held token
    have hle := he.held token
    rw [he.distro, he.donated]
    omega

/-- A transfer of `n` of a token to a stash. -/
theorem held_transfer {t : Erc20 Address} {n : ℕ} (hs : w.pools.stash pid ≠ w.distro.self)
    (ht : (w.tokens token).transfer w.distro.self (w.pools.stash pid) n = .ok t) (k : Address) :
    (update w.tokens token t k).balanceOf w.distro.self + (if k = token then n else 0) =
      w.held k := by
  obtain ⟨-, -, hn, hb, -, -⟩ := Erc20.transfer_eq_ok ht
  unfold World.held
  split_ifs with hk
  · subst hk
    rw [update_self, hb, move_src _ _ (Ne.symm hs)]
    omega
  · rw [update_of_ne hk, Nat.add_zero]

theorem Accounted.fundPool {n periods : ℕ} (h : Accounted log w) (hs : IsCaller w sender)
    (hx : exec w sender (.fundPool pid token n periods) = .ok w') :
    Accounted (log ++ [⟨w.now, sender, .fundPool pid token n periods⟩]) w' := by
  obtain ⟨r, hr, hx⟩ := bind_eq_ok.1 hx
  cases hx
  obtain ⟨hself, -, hb, hother⟩ := StashRewardDistro.fundPool_eq_ok hr
  obtain ⟨hle, hfin, htot⟩ := fundPool_funds h.finite hr
  refine ⟨?_, fun pid => ?_, hfin, fun k => ?_⟩
  · show r.1.self ≠ 0
    rw [hself]
    exact h.self_ne
  · show w.pools.stash pid ≠ r.1.self
    rw [hself]
    exact h.stash pid
  · have hheld := h.held k
    have hkick : kicks k (log ++ [⟨w.now, sender, .fundPool pid token n periods⟩]) =
        kicks k log := kicks_append _ _ _
    show (r.2 k).balanceOf r.1.self + _ = total (fundsOf r.1.getFunds k) + _ + w.donated k
    rw [hself, htot, kept_append, hkick, keptBack]
    by_cases hk : k = token
    · subst hk
      have hdiv := Nat.mul_div_le (n - periods) periods
      rw [hb, move_dst _ _ hs.2, if_pos rfl, if_pos rfl]
      unfold World.held at hheld
      omega
    · rw [hother k hk, if_neg hk, if_neg (Ne.symm hk)]
      unfold World.held at hheld
      omega

/-- Forwarding the funds of an epoch. -/
theorem Accounted.queue {epoch : ℕ} {e : Event Address Call} (h : Accounted log w)
    (hkept : ∀ k, keptBack k e.call = 0) (hkick : ∀ k, kick k e.call = 0)
    (hx : w.with (w.distro._queueRewards w.pools w.tokens epoch pid token) = .ok w') :
    Accounted (log ++ [e]) w' := by
  obtain ⟨r, hr, hx⟩ := bind_eq_ok.1 hx
  cases hx
  obtain ⟨t, ht, rfl⟩ := _queueRewards_eq_ok hr
  refine ⟨h.self_ne, h.stash, h.finite.update _ _ _ _, fun k => ?_⟩
  have hheld := h.held k
  have hbal := held_transfer (h.stash pid) ht k
  show (update w.tokens token t k).balanceOf w.distro.self + _ =
    total (fundsOf (update w.distro.getFunds epoch _) k) + _ + w.donated k
  rw [kicks_append, kept_append, hkept, hkick, fundsOf_update]
  split_ifs at hbal ⊢ with hk
  · subst hk
    have hsum := total_update_add (h.finite k) (epoch, pid) 0
    have hval : fundsOf w.distro.getFunds k (epoch, pid) = w.distro.getFunds epoch pid k := rfl
    omega
  · omega

theorem Accounted.processIdleRewards (h : Accounted log w)
    (hx : exec w sender (.processIdleRewards pid token) = .ok w') :
    Accounted (log ++ [⟨w.now, sender, .processIdleRewards pid token⟩]) w' := by
  obtain ⟨tokens, hr, hx⟩ := bind_eq_ok.1 hx
  cases hx
  obtain ⟨t, ht, rfl⟩ := processIdleRewards_eq_ok hr
  refine ⟨h.self_ne, h.stash, h.finite, fun k => ?_⟩
  have hheld := h.held k
  have hbal := held_transfer (h.stash pid) ht k
  have hkept : kept k (log ++ [⟨w.now, sender, .processIdleRewards pid token⟩]) = kept k log :=
    kept_append _ _ _
  show (update w.tokens token t k).balanceOf w.distro.self + _ = _
  rw [kicks_append, hkept, kick]
  simp only [eq_comm (a := token)]
  omega

theorem Accounted.of_reachable (h : system.Reachable log w) : Accounted log w := by
  refine h.induct (fun _ => Accounted.deployed) (fun _ _ _ => Accounted.elsewhere) ?_
  intro log w w' sender c h hs hx
  cases c with
  | fundPool pid token n periods => exact h.fundPool hs hx
  | queueRewards pid token => exact h.queue (fun _ => rfl) (fun _ => rfl) hx
  | queueRewardsOf pid token epoch =>
    obtain ⟨r, hr, hx⟩ := bind_eq_ok.1 hx
    obtain ⟨-, hr⟩ := require_bind_eq_ok.1 hr
    exact h.queue (fun _ => rfl) (fun _ => rfl) (bind_eq_ok.2 ⟨r, hr, hx⟩)
  | processIdleRewards pid token => exact h.processIdleRewards hx

/-! ## The main result -/

variable (w) in
/-- The funds of an epoch and a pool went to the stash of the pool. -/
structure Forwarded (w' : World) (epoch pid : ℕ) (token : Address) : Prop where
  balance : (w'.tokens token).balanceOf = move (w.tokens token).balanceOf w.distro.self
    (w.pools.stash pid) (w.distro.getFunds epoch pid token)
  distro : w'.distro = w.distro.setFunds epoch pid token 0

/-- The funds of an epoch that has begun can be forwarded while the distributor holds them. -/
theorem exists_queueRewards {epoch : ℕ} (hself : w.distro.self ≠ 0)
    (hstash : w.pools.stash pid ≠ 0) (hfunds : w.distro.getFunds epoch pid token ≠ 0)
    (hle : w.distro.getFunds epoch pid token ≤ w.held token)
    (hepoch : epoch ≤ w.now / epochDuration) (sender : Address) :
    ∃ w', exec w sender (.queueRewardsOf pid token epoch) = .ok w' ∧
      Forwarded w w' epoch pid token := by
  obtain ⟨t, ht⟩ := (w.tokens token).exists_transfer hself hstash hle
  have hqueue : w.distro._queueRewards w.pools w.tokens epoch pid token =
      .ok (w.distro.setFunds epoch pid token 0, update w.tokens token t) := by
    unfold StashRewardDistro._queueRewards
    dsimp only
    rw [require_of hfunds, ok_bind, ht, ok_bind]
  have hof : w.distro.queueRewardsOf w.now w.pools w.tokens pid token epoch =
      .ok (w.distro.setFunds epoch pid token 0, update w.tokens token t) :=
    require_bind_eq_ok.2 ⟨hepoch, hqueue⟩
  refine ⟨_, bind_eq_ok.2 ⟨_, hof, rfl⟩, ?_, rfl⟩
  rw [← (Erc20.transfer_eq_ok ht).2.2.2.1]
  exact congrArg Erc20.balanceOf (update_self _ _ _)

/-- In every run the distributor covers its funds in a token exactly if there were no more
kicks than wei kept back and received, and then every fund that is due can be forwarded, and
the stash of the pool gets it. -/
theorem solvent_iff (h : system.Reachable log w) (token : Address) :
    (total (fundsOf w.distro.getFunds token) ≤ w.held token ↔
      kicks token log ≤ kept token log + w.donated token) ∧
    (kicks token log ≤ kept token log + w.donated token →
      ∀ sender pid epoch, w.distro.getFunds epoch pid token ≠ 0 → epoch ≤ w.now / epochDuration →
        w.pools.stash pid ≠ 0 →
          ∃ w', exec w sender (.queueRewardsOf pid token epoch) = .ok w' ∧
            Forwarded w w' epoch pid token) := by
  have hacc := Accounted.of_reachable h
  have hheld := hacc.held token
  refine ⟨by omega, fun hk sender pid epoch hfunds hepoch hstash => ?_⟩
  have hle : w.distro.getFunds epoch pid token ≤ total (fundsOf w.distro.getFunds token) :=
    le_total_of_finite (hacc.finite token) (epoch, pid)
  exact exists_queueRewards hacc.self_ne hstash hfunds (by omega) hepoch sender

/-! ## Runs -/

/-- A distributor at the address 300. The stash of every pool is 400, and the account 1 holds
10^30 of every token and has approved everybody. -/
def World.initial : World where
  now := 1000
  tokens _ := Erc20.single 1 (10 ^ 30) Erc20.single_supply_lt fun _ _ => 2 ^ 256 - 1
  pools := ⟨fun _ => 400, fun _ _ => 500, fun _ => 0, fun _ => 0⟩
  distro := ⟨300, fun _ _ _ => 0⟩
  donated _ := 0

theorem World.initial_deployed : Deployed World.initial where
  self_ne := show (300 : Address) ≠ 0 by decide
  stash _ := show (400 : Address) ≠ 300 by decide
  getFunds := rfl
  donated _ := by
    have hne : (300 : Address) ≠ 1 := by decide
    have hheld : update (fun _ => 0) (1 : Address) (10 ^ 30) 300 = 0 := update_of_ne hne _ _
    exact hheld.symm

/-- The world at a later time, when rewards are queued in every pool and its period is over. -/
def World.at (w : World) (now : ℕ) : World :=
  { w with
    now
    pools := { w.pools with periodFinish := fun _ => now - 1, queuedRewards := fun _ => 1 } }

theorem World.elsewhere_at (w : World) (now : ℕ) (h : w.now ≤ now) : Elsewhere w (w.at now) :=
  ⟨h, rfl, id, fun _ => le_rfl, fun _ => by simp [World.at, World.held]⟩

/-- A kick that the wei kept back pays for. Then the stash, which has got a wei, gets the funds
of the week. -/
theorem solvent_iff_run : ∃ log w, system.Reachable log w ∧ kicks 200 log = 1 ∧
    total (fundsOf w.distro.getFunds 200) ≤ w.held 200 ∧
    ∃ w', exec w 5 (.queueRewardsOf 7 200 1) = .ok w' ∧ (w'.tokens 200).balanceOf 400 = 500 := by
  let log : Log := [⟨2000, 1, .fundPool 7 200 1000 2⟩, ⟨700000, 5, .processIdleRewards 7 200⟩]
  have hvalues : (system.play World.at World.initial log).map (fun w => (w.distro.self,
      w.distro.getFunds 1 7 200, w.now, w.pools.stash 7, (w.tokens 200).balanceOf 400)) =
      .ok (300, 499, 700000, 400, 1) := by decide +kernel
  obtain ⟨w, hw, hvalues⟩ := Tx.map_eq_ok.1 hvalues
  simp only [Prod.mk.injEq] at hvalues
  obtain ⟨hself, hfunds, hnow, hstash, hbalance⟩ := hvalues
  have hreach : system.Reachable log w := ⟨_, World.initial_deployed, .play World.elsewhere_at hw⟩
  have hkept : kicks 200 log ≤ kept 200 log := by decide +kernel
  have hfew := hkept.trans (Nat.le_add_right _ (w.donated 200))
  obtain ⟨hiff, hdue⟩ := solvent_iff hreach 200
  obtain ⟨w', hx, hforwarded⟩ := hdue hfew 5 7 1 (by rw [hfunds]; decide)
    (by rw [hnow]; decide) (by rw [hstash]; decide)
  refine ⟨log, w, hreach, by decide +kernel, hiff.2 hfew, w', hx, ?_⟩
  have hne : (300 : Address) ≠ 400 := by decide
  rw [hforwarded.balance, hstash, hself, hfunds, move_dst _ _ hne, hbalance]

/-- With 2 wei funded for a period, the second kick takes what is due to the pool. -/
theorem not_solvent : ¬∀ {log : Log} {w : World}, system.Reachable log w → ∀ token,
    total (fundsOf w.distro.getFunds token) ≤ w.held token := by
  intro h
  let log : Log := [⟨2000, 1, .fundPool 7 200 2 1⟩, ⟨700000, 5, .processIdleRewards 7 200⟩,
    ⟨1400000, 5, .processIdleRewards 7 200⟩]
  obtain ⟨w, hw⟩ := Tx.exists_ok (show (system.play World.at World.initial log).returns = true by
    decide +kernel)
  have hvalues : (system.play World.at World.initial log).map
      (fun w => (w.distro.getFunds 1 7 200, w.held 200)) = .ok (1, 0) := by decide +kernel
  rw [hw] at hvalues
  obtain ⟨hfunds, hheld⟩ := Prod.mk.inj (Except.ok.inj hvalues)
  have hreach : system.Reachable log w := ⟨_, World.initial_deployed, .play World.elsewhere_at hw⟩
  have hle : w.distro.getFunds 1 7 200 ≤ total (fundsOf w.distro.getFunds 200) :=
    le_total_of_finite ((Accounted.of_reachable hreach).finite 200) (1, 7)
  have hsol := h hreach 200
  omega

end Aura.Gauges.StashRewards
