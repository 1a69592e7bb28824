import Aura.Evm.Run
import Aura.MintSchedule

/-!
# AuraMinter and AuraMining

The contract that is the minter of the token, and the view that says how much of the token a
`mint` of the operator would create. Until the protection ends, three years after the minter
was deployed, nothing is minted beyond the schedule, by nobody ; what is minted later was
minted by the owner of that time, and every other token is of the schedule
(`inflation_protected`).

The view takes all of the supply beyond the initial one for emissions, as it does not see what
the minter minted. It is exact until the protection ends, and from then on it says too little,
never too much (`convertCrvToCvx_le`).
-/

open Evm Function

namespace Aura

structure AuraMinter where
  owner : Address
  inflationProtectionTime : ℕ
  deriving DecidableEq

namespace AuraMinter

/-- `156 weeks`. -/
def inflationProtection : ℕ := 156 * 7 * 86400

structure World where
  /-- `block.timestamp`. -/
  now : ℕ
  aura : AuraToken
  minter : AuraMinter

/-! ## The functions -/

/-- The constructor. -/
def deploy (now : ℕ) (_dao : Address) : Tx AuraMinter := do
  let inflationProtectionTime ← uadd 256 now inflationProtection
  .ok ⟨_dao, inflationProtectionTime⟩

-- `address(this)`
variable (here : Address)

def mint (w : World) (sender _to : Address) (_amount : ℕ) : Tx World := do
  require (sender = w.minter.owner) "Ownable: caller is not the owner"
  require (w.minter.inflationProtectionTime < w.now) "Inflation protected for now"
  let aura ← w.aura.minterMint here _to _amount
  .ok { w with aura }

def transferOwnership (w : World) (sender newOwner : Address) : Tx World := do
  require (sender = w.minter.owner) "Ownable: caller is not the owner"
  require (newOwner ≠ 0) "Ownable: new owner is the zero address"
  .ok { w with minter := { w.minter with owner := newOwner } }

def renounceOwnership (w : World) (sender : Address) : Tx World := do
  require (sender = w.minter.owner) "Ownable: caller is not the owner"
  .ok { w with minter := { w.minter with owner := 0 } }

/-- `AuraMining.convertCrvToCvx`, with the lines that it has in common with `AuraToken.mint`
as the definition they have there. -/
def convertCrvToCvx (cvx : AuraToken) (_amount : ℕ) : Tx ℕ := do
  let emissionsMinted ← usub cvx.totalSupply AuraToken.initMintAmount
  let cliff ← AuraMath.div emissionsMinted AuraToken.reductionPerCliff
  if cliff < AuraToken.totalCliffs then AuraToken.scheduled emissionsMinted cliff _amount
  else .ok 0

/-! ## Runs -/

inductive Call where
  /-- A call of the token. -/
  | token (c : AuraToken.Call)
  | mint (_to : Address) (_amount : ℕ)
  | transferOwnership (newOwner : Address)
  | renounceOwnership
  deriving DecidableEq

/-- Run a call of `sender`. -/
def exec (w : World) (sender : Address) : Call → Tx World
  | .token c => do
    let aura ← w.aura.exec sender c
    .ok { w with aura }
  | .mint a n => mint here w sender a n
  | .transferOwnership a => transferOwnership w sender a
  | .renounceOwnership => renounceOwnership w sender

/-- Time passes, tokens move, and the operator of the VoterProxy changes. -/
structure Elsewhere (w w' : World) : Prop where
  now : w.now ≤ w'.now
  minter : w'.minter = w.minter
  aura : AuraToken.Elsewhere w.aura w'.aura

-- the first owner
variable (_dao : Address)

/-- The token and the minter were just deployed. -/
structure Deployed (w : World) : Prop where
  here_ne : here ≠ 0
  aura : AuraToken.Deployed w.aura
  minter : deploy w.now _dao = .ok w.minter

/-- The token, its minter and their surroundings. The minter calls the token from `mint`
alone. -/
def system : System World Address Call where
  now := World.now
  IsCaller _ a := a ≠ 0 ∧ a ≠ here
  exec := exec here
  Elsewhere := Elsewhere
  Deployed := Deployed here _dao

instance (w : World) (a : Address) : Decidable ((system here _dao).IsCaller w a) :=
  inferInstanceAs (Decidable (a ≠ 0 ∧ a ≠ here))

/-! ## What a log says -/

/-- What a call mints beyond the schedule. -/
def Call.minted : Call → ℕ
  | .mint _ n => n
  | _ => 0

/-- What was minted beyond the schedule. -/
def minted (log : List (Event Address Call)) : ℕ :=
  (log.map fun e => e.call.minted).sum

/-- The owner after a call. -/
def handOver (owner : Address) (e : Event Address Call) : Address :=
  match e.call with
  | .transferOwnership a => a
  | .renounceOwnership => 0
  | _ => owner

/-- Every call that mints beyond the schedule is one of the owner of that time, after the
protection ended at `t`. -/
def Licensed (t : ℕ) (log : List (Event Address Call)) : Prop :=
  ∀ earlier e later, log = earlier ++ e :: later → e.call.minted ≠ 0 →
    e.sender = earlier.foldl handOver _dao ∧ t < e.time

variable {here _dao} {w w' : World} {sender a : Address} {n t : ℕ}
  {log : List (Event Address Call)} {e : Event Address Call}

@[simp] theorem minted_append_singleton : minted (log ++ [e]) = minted log + e.call.minted := by
  simp [minted]

theorem Licensed.nil : Licensed _dao t [] := by
  rintro earlier e later h
  cases earlier <;> cases h

/-- A log goes on with a call that mints nothing, or with one of the owner that is late
enough. -/
theorem Licensed.append (h : Licensed _dao t log)
    (he : e.call.minted ≠ 0 → e.sender = log.foldl handOver _dao ∧ t < e.time) :
    Licensed _dao t (log ++ [e]) := by
  intro earlier e' later hlog hmints
  rcases List.eq_nil_or_concat later with rfl | ⟨later, last, rfl⟩
  · obtain ⟨rfl, hlast⟩ := List.append_inj' hlog rfl
    cases hlast
    exact he hmints
  · rw [List.concat_eq_append, ← List.cons_append, ← List.append_assoc] at hlog
    obtain ⟨rfl, -⟩ := List.append_inj' hlog rfl
    exact h earlier e' later rfl hmints

/-! ## The invariant -/

variable (here _dao) in
/-- The token is in a run of its own, the owner is the one that the log names, and what the
minter minted is in the log. -/
structure Guarded (log : List (Event Address Call)) (w : World) : Prop where
  here_ne : here ≠ 0
  run : ∃ es, AuraToken.Run es w.aura
  owner : w.minter.owner = log.foldl handOver _dao
  licensed : Licensed _dao w.minter.inflationProtectionTime log
  past : ∀ e ∈ log, e.time ≤ w.now
  minterMinted : w.aura.minter = here → w.aura.minterMinted = minted log
  other : w.aura.minter ≠ here → minted log = 0

theorem Guarded.deployed (h : Deployed here _dao w) : Guarded here _dao [] w := by
  have hminter : w.minter.owner = _dao := by
    obtain ⟨t, -, ht⟩ := bind_eq_ok.1 h.minter
    rw [← Except.ok.inj ht]
  refine ⟨h.here_ne, ⟨[], .deployed h.aura⟩, hminter, .nil, nofun, fun hm => ?_, fun _ => rfl⟩
  exact absurd (hm.symm.trans h.aura.minter) h.here_ne

theorem Guarded.elsewhere (h : Guarded here _dao log w) (he : Elsewhere w w') :
    Guarded here _dao log w' := by
  have hminter := he.minter
  obtain ⟨es, hrun⟩ := h.run
  obtain ⟨p, token, -, haura⟩ := id he.aura
  refine ⟨h.here_ne, ⟨es, hrun.elsewhere he.aura⟩, ?_, ?_,
    fun e hmem => (h.past e hmem).trans he.now, ?_, ?_⟩
  · rw [hminter]
    exact h.owner
  · rw [hminter]
    exact h.licensed
  · rw [haura]
    exact h.minterMinted
  · rw [haura]
    exact h.other

/-- A call that mints nothing beyond the schedule. -/
theorem Guarded.append (h : Guarded here _dao log w) (hnow : w'.now = w.now)
    (htime : e.time = w.now) (hmints : e.call.minted = 0)
    (hrun : ∃ es, AuraToken.Run es w'.aura)
    (howner : w'.minter.owner = handOver w.minter.owner e)
    (ht : w'.minter.inflationProtectionTime = w.minter.inflationProtectionTime)
    (hminted : w'.aura.minter = here → w'.aura.minterMinted = minted log)
    (hother : w'.aura.minter ≠ here → minted log = 0) :
    Guarded here _dao (log ++ [e]) w' := by
  refine ⟨h.here_ne, hrun, ?_, ?_, fun e' hmem => ?_, ?_, ?_⟩
  · rw [List.foldl_append, ← h.owner, howner]
    rfl
  · rw [ht]
    exact h.licensed.append fun hm => absurd hmints hm
  · rw [hnow]
    rcases List.mem_append.1 hmem with hmem | hmem
    · exact h.past e' hmem
    · rw [List.mem_singleton.1 hmem, htime]
  · rw [minted_append_singleton, hmints, Nat.add_zero]
    exact hminted
  · rw [minted_append_singleton, hmints, Nat.add_zero]
    exact hother

/-- What a call of the token does to its minter and to what the minter minted. -/
theorem exec_minter {s s' : AuraToken} {es : List AuraToken.Emission} {c : AuraToken.Call}
    (h : AuraToken.Run es s) (hx : s.exec sender c = .ok s') :
    (s'.minter = s.minter ∧ s'.minterMinted = s.minterMinted) ∨
      (s.minter = 0 ∧ s'.minterMinted = 0) ∨ (s.minter = sender ∧ s'.minter = sender) := by
  cases c with
  | init dst m =>
    obtain ⟨-, hx⟩ := require_bind_eq_ok.1 hx
    obtain ⟨hzero, hx⟩ := require_bind_eq_ok.1 hx
    obtain ⟨-, hx⟩ := require_bind_eq_ok.1 hx
    obtain ⟨_, -, hx⟩ := bind_eq_ok.1 hx
    obtain ⟨_, -, hx⟩ := bind_eq_ok.1 hx
    cases hx
    exact .inr (.inl ⟨(h.emitted.before hzero).1, rfl⟩)
  | updateOperator =>
    rw [AuraToken.updateOperator_eq_ok hx]
    exact .inl ⟨rfl, rfl⟩
  | mint dst n =>
    by_cases hs : sender = s.operator
    · rw [hs] at hx
      obtain ⟨-, hs', -⟩ := h.emitted.mint_eq_ok hx
      rw [hs']
      exact .inl ⟨rfl, rfl⟩
    · have hzero := (require_bind_eq_ok.1 hx).1
      cases (AuraToken.mint_of_ne hzero hs).symm.trans hx
      exact .inl ⟨rfl, rfl⟩
  | minterMint dst n =>
    obtain ⟨hm, hx⟩ := require_bind_eq_ok.1 hx
    obtain ⟨_, -, hx⟩ := bind_eq_ok.1 hx
    obtain ⟨_, -, hx⟩ := bind_eq_ok.1 hx
    cases hx
    exact .inr (.inr ⟨hm.symm, hm.symm⟩)

theorem Guarded.token {c : AuraToken.Call} {s' : AuraToken} (h : Guarded here _dao log w)
    (h0 : sender ≠ 0) (hne : sender ≠ here) (hx : w.aura.exec sender c = .ok s') :
    Guarded here _dao (log ++ [⟨w.now, sender, .token c⟩]) { w with aura := s' } := by
  obtain ⟨es, hrun⟩ := h.run
  have hnext : AuraToken.Run _ s' := .call hrun h0 hx
  refine h.append rfl rfl rfl ⟨_, hnext⟩ rfl rfl (fun hm => ?_) fun hm => ?_
  all_goals rcases exec_minter hrun hx with ⟨hminter, hminted⟩ | ⟨hnone, hminted⟩ | ⟨hold, hnew⟩
  · exact hminted.trans (h.minterMinted (hminter.symm.trans hm))
  · have hzero : minted log = 0 := h.other fun he => h.here_ne (he.symm.trans hnone)
    exact hminted.trans hzero.symm
  · exact absurd (hnew.symm.trans hm) hne
  · exact h.other fun he => hm (hminter.trans he)
  · exact h.other fun he => h.here_ne (he.symm.trans hnone)
  · exact h.other fun he => hne (hold.symm.trans he)

theorem Guarded.mint (h : Guarded here _dao log w) (hx : mint here w sender a n = .ok w') :
    Guarded here _dao (log ++ [⟨w.now, sender, .mint a n⟩]) w' := by
  obtain ⟨howner, hx⟩ := require_bind_eq_ok.1 hx
  obtain ⟨hlate, hx⟩ := require_bind_eq_ok.1 hx
  obtain ⟨s', hm, hx⟩ := bind_eq_ok.1 hx
  cases hx
  obtain ⟨es, hrun⟩ := h.run
  have hnext : AuraToken.Run _ s' := .call hrun h.here_ne (c := .minterMint a n) hm
  obtain ⟨hminter, hm⟩ := require_bind_eq_ok.1 hm
  obtain ⟨k, hk, hm⟩ := bind_eq_ok.1 hm
  obtain ⟨-, rfl⟩ := uadd_eq_ok.1 hk
  obtain ⟨_, -, hm⟩ := bind_eq_ok.1 hm
  cases hm
  refine ⟨h.here_ne, ⟨_, hnext⟩, ?_, h.licensed.append fun _ => ⟨?_, hlate⟩, fun e hmem => ?_,
    fun _ => ?_, fun hother => absurd hminter.symm hother⟩
  · rw [List.foldl_append, ← h.owner]
    rfl
  · rw [← h.owner]
    exact howner
  · rcases List.mem_append.1 hmem with hmem | hmem
    · exact h.past e hmem
    · rw [List.mem_singleton.1 hmem]
  · rw [minted_append_singleton, ← h.minterMinted hminter.symm]
    rfl

theorem Guarded.of_reachable (h : (system here _dao).Reachable log w) :
    Guarded here _dao log w := by
  refine h.induct (fun _ => Guarded.deployed) (fun _ _ _ => Guarded.elsewhere) ?_
  intro log w w' sender c h hcaller hx
  cases c with
  | token c =>
    obtain ⟨s', htoken, hok⟩ := bind_eq_ok.1 hx
    cases hok
    exact h.token hcaller.1 hcaller.2 htoken
  | mint a n => exact h.mint hx
  | transferOwnership a =>
    obtain ⟨-, hx⟩ := require_bind_eq_ok.1 hx
    obtain ⟨-, hx⟩ := require_bind_eq_ok.1 hx
    cases hx
    exact h.append rfl rfl rfl h.run rfl rfl h.minterMinted h.other
  | renounceOwnership =>
    obtain ⟨-, hx⟩ := require_bind_eq_ok.1 hx
    cases hx
    exact h.append rfl rfl rfl h.run rfl rfl h.minterMinted h.other

/-- A token whose minter is set has a supply. -/
theorem Guarded.supply (h : Guarded here _dao log w) (hm : w.aura.minter = here) :
    w.aura.totalSupply ≠ 0 := by
  obtain ⟨es, hrun⟩ := h.run
  exact fun hzero => h.here_ne (hm.symm.trans (hrun.emitted.before hzero).1)

/-- Until the protection ends, nothing was minted beyond the schedule. -/
theorem Guarded.minted_eq_zero (h : Guarded here _dao log w)
    (hnow : w.now ≤ w.minter.inflationProtectionTime) : minted log = 0 := by
  refine List.sum_eq_zero fun k hk => ?_
  obtain ⟨e, hmem, rfl⟩ := List.mem_map.1 hk
  by_contra hmints
  obtain ⟨earlier, later, hlog⟩ := List.append_of_mem hmem
  obtain ⟨-, hlate⟩ := h.licensed earlier e later hlog hmints
  have hpast := h.past e hmem
  omega

/-- In every run in which the token was set up with this minter : the supply is the initial
amount, emissions of the schedule, which are at most their maximum, and what the log of the
minter says. Each entry of that is of the owner of its time and later than the end of the
protection. Until then there is none, and the supply is at most 10^26. -/
theorem inflation_protected (h : (system here _dao).Reachable log w)
    (hm : w.aura.minter = here) :
    (∃ es, AuraToken.Run es w.aura ∧ AuraToken.emissions es ≤ AuraToken.emissionsMaxSupply ∧
      w.aura.totalSupply =
        AuraToken.initMintAmount + AuraToken.emissions es + minted log) ∧
    Licensed _dao w.minter.inflationProtectionTime log ∧
    (w.now ≤ w.minter.inflationProtectionTime →
      minted log = 0 ∧ w.aura.totalSupply ≤ 10 ^ 26) := by
  have hg := Guarded.of_reachable h
  obtain ⟨es, hrun⟩ := hg.run
  have hcap := hrun.emitted.cap
  have hsupply := hrun.emitted.supply (hg.supply hm)
  rw [hg.minterMinted hm] at hsupply
  refine ⟨⟨es, hrun, hcap, hsupply⟩, hg.licensed, fun hnow => ?_⟩
  have hnone := hg.minted_eq_zero hnow
  have hsum : AuraToken.initMintAmount + AuraToken.emissionsMaxSupply = 10 ^ 26 := rfl
  exact ⟨hnone, by omega⟩

/-! ## The view -/

/-- Before the last cliff a schedule returns if the product with the rate fits a word. -/
theorem schedule_returns_iff {e : ℕ}
    (hlast : e / AuraToken.reductionPerCliff < AuraToken.totalCliffs) :
    (∃ k, AuraToken.schedule e n = .ok k) ↔ n * AuraToken.reduction e < 2 ^ 256 := by
  unfold AuraToken.schedule
  rw [if_pos hlast]
  constructor
  · rintro ⟨k, h⟩
    obtain ⟨x, hx, h⟩ := bind_eq_ok.1 h
    obtain ⟨-, rfl⟩ := usub_eq_ok.1 hx
    obtain ⟨x, hx, h⟩ := bind_eq_ok.1 h
    obtain ⟨-, rfl⟩ := umul_eq_ok.1 hx
    obtain ⟨x, hx, h⟩ := bind_eq_ok.1 h
    obtain ⟨-, rfl⟩ := udiv_eq_ok.1 hx
    obtain ⟨x, hx, h⟩ := bind_eq_ok.1 h
    obtain ⟨-, rfl⟩ := uadd_eq_ok.1 hx
    obtain ⟨x, hx, -⟩ := bind_eq_ok.1 h
    exact (umul_eq_ok.1 hx).1
  · intro h
    unfold AuraToken.reduction at h
    have hcap : e ≤ AuraToken.emissionsMaxSupply :=
      ((Nat.div_lt_iff_lt_mul (by decide)).1 hlast).le
    have hcliffs : AuraToken.totalCliffs - e / AuraToken.reductionPerCliff ≤ 500 := Nat.sub_le _ _
    have hmul : (AuraToken.totalCliffs - e / AuraToken.reductionPerCliff) * 5 < 2 ^ 256 := by omega
    have hadd :
        (AuraToken.totalCliffs - e / AuraToken.reductionPerCliff) * 5 / 2 + 700 < 2 ^ 256 := by
      omega
    unfold AuraToken.scheduled
    rw [AuraMath.sub, usub_of hlast.le, ok_bind, AuraMath.mul, umul_of hmul, ok_bind, AuraMath.div,
      udiv_of (by decide), ok_bind, AuraMath.add, uadd_of hadd, ok_bind, AuraMath.mul, umul_of h,
      ok_bind, AuraMath.div, udiv_of (by decide), ok_bind, AuraMath.sub, usub_of hcap, ok_bind]
    exact ⟨_, rfl⟩

/-- A schedule that does not overflow does not after more emissions either. -/
theorem schedule_returns {e e' k : ℕ} (hk : AuraToken.schedule e n = .ok k) (hle : e ≤ e') :
    ∃ k', AuraToken.schedule e' n = .ok k' := by
  by_cases hlast : e' / AuraToken.reductionPerCliff < AuraToken.totalCliffs
  · have hdiv : e / AuraToken.reductionPerCliff ≤ e' / AuraToken.reductionPerCliff :=
      Nat.div_le_div_right hle
    have hfits := (schedule_returns_iff (hdiv.trans_lt hlast)).1 ⟨k, hk⟩
    have hrate := Nat.mul_le_mul_left n (AuraToken.reduction_anti hle)
    exact (schedule_returns_iff hlast).2 (hrate.trans_lt hfits)
  · exact ⟨0, if_neg hlast⟩

theorem convertCrvToCvx_eq {cvx : AuraToken} {e : ℕ}
    (h : cvx.totalSupply = AuraToken.initMintAmount + e) (n : ℕ) :
    convertCrvToCvx cvx n = AuraToken.schedule e n := by
  have hsub : usub cvx.totalSupply AuraToken.initMintAmount = .ok e := by
    rw [h, Nat.add_comm]
    exact usub_add_right _ _
  have hcliff :
      AuraMath.div e AuraToken.reductionPerCliff = .ok (e / AuraToken.reductionPerCliff) :=
    udiv_of (by decide)
  unfold convertCrvToCvx AuraToken.schedule
  rw [hsub, ok_bind, hcliff, ok_bind]

/-- In every run in which the token was set up with this minter, a mint of the operator that
returns creates at least what the view says for its amount, and the view does return. Until
the protection ends the view is exact, and it returns exactly if the mint does ; once as much
was minted beyond the initial supply as the schedule has, it says nothing is created. -/
theorem convertCrvToCvx_le (h : (system here _dao).Reachable log w) (hm : w.aura.minter = here)
    (ha : a ≠ 0) (n : ℕ) :
    (∀ s', w.aura.mint w.aura.operator a n = .ok s' →
      ∃ k, convertCrvToCvx w.aura n = .ok k ∧ k ≤ AuraToken.created w.aura (.ok s') ∧
        (w.now ≤ w.minter.inflationProtectionTime → k = AuraToken.created w.aura (.ok s'))) ∧
    (w.now ≤ w.minter.inflationProtectionTime →
      ((∃ k, convertCrvToCvx w.aura n = .ok k) ↔
        ∃ s', w.aura.mint w.aura.operator a n = .ok s')) ∧
    (10 ^ 26 ≤ w.aura.totalSupply → convertCrvToCvx w.aura n = .ok 0) := by
  have hg := Guarded.of_reachable h
  obtain ⟨es, hrun⟩ := hg.run
  have he := hrun.emitted
  have h0 := hg.supply hm
  have hsupply := he.supply h0
  rw [hg.minterMinted hm, Nat.add_assoc] at hsupply
  have hview := convertCrvToCvx_eq hsupply n
  have hsum : AuraToken.initMintAmount + AuraToken.emissionsMaxSupply = 10 ^ 26 := rfl
  refine ⟨fun s' hx => ?_, fun hnow => ⟨?_, ?_⟩, fun hfull => ?_⟩
  · obtain ⟨-, -, k, hk, -⟩ := he.mint_eq_ok hx
    obtain ⟨k', hk'⟩ := schedule_returns hk (Nat.le_add_right _ (minted log))
    rw [(he.operator_mint hx).1]
    refine ⟨k', hview.trans hk', ?_, fun hnow => ?_⟩
    · rw [AuraToken.schedule_eq_creates hk']
      exact AuraToken.capped_anti AuraToken.reduction_anti (Nat.le_add_right _ _) n
    · rw [AuraToken.schedule_eq_creates hk', hg.minted_eq_zero hnow, Nat.add_zero]
  · rintro ⟨k, hk⟩
    rw [hview, hg.minted_eq_zero hnow, Nat.add_zero] at hk
    rw [hg.minted_eq_zero hnow, Nat.add_zero] at hsupply
    have hle := AuraToken.schedule_le hk
    have hcap := he.cap
    exact he.exists_mint h0 ha hk (by omega)
  · rintro ⟨s', hx⟩
    obtain ⟨-, -, k, hk, -⟩ := he.mint_eq_ok hx
    rw [hview, hg.minted_eq_zero hnow]
    exact ⟨k, hk⟩
  · have hlast : ¬(AuraToken.emissions es + minted log) / AuraToken.reductionPerCliff <
        AuraToken.totalCliffs := by
      have hper : AuraToken.emissionsMaxSupply =
          AuraToken.totalCliffs * AuraToken.reductionPerCliff := rfl
      rw [Nat.div_lt_iff_lt_mul (by decide), ← hper]
      omega
    rw [hview]
    exact if_neg hlast

/-! ## Computed runs -/

/-- A token and a minter at the address 103, just deployed, that the account 7 will own. -/
def World.initial : World where
  now := 1000
  aura := AuraToken.initial
  minter := ⟨7, 1000 + inflationProtection⟩

theorem World.initial_deployed : Deployed 103 7 World.initial where
  here_ne := show (103 : Address) ≠ 0 by decide
  aura := AuraToken.initial_deployed
  minter := by
    unfold deploy
    rw [uadd_of (by decide)]
    rfl

/-- The world at a later time. -/
def World.at (w : World) (now : ℕ) : World :=
  { w with now }

theorem World.elsewhere_at (w : World) (now : ℕ) (h : w.now ≤ now) : Elsewhere w (w.at now) :=
  ⟨h, rfl, w.aura.voterProxyOperator, w.aura.token, rfl, rfl⟩

/-- The operator mints, and when the protection has ended the owner does. -/
theorem inflation_protected_run : ∃ log w, (system 103 7).Reachable log w ∧ minted log = 9 ∧
    ∃ es, AuraToken.Run es w.aura ∧ AuraToken.emissions es ≤ AuraToken.emissionsMaxSupply ∧
      w.aura.totalSupply = AuraToken.initMintAmount + AuraToken.emissions es + minted log := by
  let log : List (Event Address Call) :=
    [⟨1000, 101, .token (.init 1 103)⟩, ⟨2000, 102, .token (.mint 3 1000)⟩,
      ⟨1001 + inflationProtection, 7, .mint 8 9⟩]
  have hminter : ((system 103 7).play World.at World.initial log).map (fun w => w.aura.minter) =
      .ok 103 := by decide +kernel
  cases hw : (system 103 7).play World.at World.initial log with
  | error e =>
    rw [hw] at hminter
    cases hminter
  | ok w =>
    rw [hw] at hminter
    have hreach : (system 103 7).Reachable log w :=
      ⟨_, World.initial_deployed, .play World.elsewhere_at hw⟩
    exact ⟨log, w, hreach, rfl, (inflation_protected hreach (Except.ok.inj hminter)).1⟩

/-- The view and a mint at the same rate. -/
theorem convertCrvToCvx_le_run : ∃ log w, (system 103 7).Reachable log w ∧
    ∃ k, convertCrvToCvx w.aura 1000 = .ok k ∧ 0 < k := by
  let log : List (Event Address Call) :=
    [⟨1000, 101, .token (.init 1 103)⟩, ⟨2000, 102, .token (.mint 3 1000)⟩]
  have hvalues : ((system 103 7).play World.at World.initial log).map (fun w => (w.aura.minter,
      w.now, w.minter, (w.aura.mint w.aura.operator 3 1000).map (AuraToken.created w.aura ∘ .ok))) =
      .ok (103, 2000, ⟨7, 1000 + inflationProtection⟩, .ok 3900) := by decide +kernel
  cases hw : (system 103 7).play World.at World.initial log with
  | error e =>
    rw [hw] at hvalues
    cases hvalues
  | ok w =>
    rw [hw] at hvalues
    have hvalues := Except.ok.inj hvalues
    simp only [Prod.mk.injEq] at hvalues
    obtain ⟨hm, hnow, hminter, hmint⟩ := hvalues
    have hreach : (system 103 7).Reachable log w :=
      ⟨_, World.initial_deployed, .play World.elsewhere_at hw⟩
    have h3 : (3 : Address) ≠ 0 := show (3 : Address) ≠ 0 by decide
    cases hs' : w.aura.mint w.aura.operator 3 1000 with
    | error e =>
      rw [hs'] at hmint
      cases hmint
    | ok s' =>
      rw [hs'] at hmint
      have hcreated : AuraToken.created w.aura (.ok s') = 3900 := Except.ok.inj hmint
      obtain ⟨k, hk, -, hexact⟩ := (convertCrvToCvx_le hreach hm h3 1000).1 s' hs'
      have hprotected : w.now ≤ w.minter.inflationProtectionTime := by
        rw [hnow, hminter]
        decide
      rw [hexact hprotected, hcreated] at hk
      exact ⟨log, w, hreach, 3900, hk, by decide⟩

end AuraMinter

end Aura
