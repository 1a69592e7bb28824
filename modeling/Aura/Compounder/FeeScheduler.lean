import Aura.AuraMath
import Aura.Evm.Others
import Aura.Evm.Run

/-!
# FeeScheduler

Fees in BAL that are forwarded to the vault over five epochs of two days. Anybody calls
`forward`, as often as they like. By epoch `e` the vault has got `startBalance * e / 5` once
`forward` was called in it, whatever was called before, and everything, with what others have
sent to the scheduler, from the fifth epoch on (`forward_law`). The difference that `forward`
takes unchecked of the mathematics never underflows, as epochs do not go back.
-/

open Evm Function

namespace Aura.Compounder

structure FeeScheduler where
  dao : Address
  _to : Address
  startTime : ℕ
  startBalance : ℕ
  forwardedBalance : ℕ
  deriving DecidableEq

namespace FeeScheduler

open AuraMath

def duration : ℕ := 2 * 86400

def nEpochs : ℕ := 5

structure World where
  /-- `block.timestamp`. -/
  now : ℕ
  bal : Erc20 Address
  scheduler : FeeScheduler

-- `address(this)`
variable (here : Address)

def init (w : World) (sender : Address) : Tx World := do
  let s := w.scheduler
  require (sender = s.dao) "!dao"
  require (s.startTime = 0) "already started"
  let balance := w.bal.balanceOf here
  require (0 < balance) "balance<0"
  .ok { w with scheduler := { s with startTime := w.now, startBalance := balance } }

/-- What `forward` sends in an epoch. -/
def amountOf (w : World) (epoch : ℕ) : Tx ℕ :=
  if nEpochs ≤ epoch then .ok (w.bal.balanceOf here)
  else do
    let x ← mul w.scheduler.startBalance epoch
    let totalAmount ← div x nEpochs
    usub totalAmount w.scheduler.forwardedBalance

def forward (w : World) : Tx World := do
  let s := w.scheduler
  require (0 < s.startTime) "!active"
  let elapsed ← sub w.now s.startTime
  let x ← div elapsed duration
  let epoch ← add x 1
  let amount ← amountOf here w epoch
  let forwardedBalance ← uadd 256 s.forwardedBalance amount
  require (0 < amount) "!amount"
  let bal ← w.bal.transfer here s._to amount
  .ok { w with bal, scheduler := { s with forwardedBalance } }

/-! ## Runs -/

inductive Call where
  | init
  | forward
  deriving DecidableEq

/-- Run a call of `sender`. -/
def exec (w : World) (sender : Address) : Call → Tx World
  | .init => init here w sender
  | .forward => forward here w

/-- Time passes, and others use the token. -/
structure Elsewhere (w w' : World) : Prop where
  now : w.now ≤ w'.now
  scheduler : w'.scheduler = w.scheduler
  bal : Erc20.Spends here w.bal w'.bal

/-- The scheduler was just deployed, and sends to somebody else. -/
structure Deployed (w : World) : Prop where
  now_pos : 0 < w.now
  self_ne : here ≠ 0
  to_ne : w.scheduler._to ≠ 0
  to_ne_self : w.scheduler._to ≠ here
  scheduler : w.scheduler = ⟨w.scheduler.dao, w.scheduler._to, 0, 0, 0⟩
  approved : w.bal.approved here = 0

/-- The scheduler and its surroundings. -/
def system : System World Address Call where
  now := World.now
  IsCaller _ a := a ≠ 0 ∧ a ≠ here
  exec := exec here
  Elsewhere := Elsewhere here
  Deployed := Deployed here

instance (w : World) (a : Address) : Decidable ((system here).IsCaller w a) :=
  inferInstanceAs (Decidable (a ≠ 0 ∧ a ≠ here))

variable {here} {w w' : World} {sender : Address} {log : List (Event Address Call)}

/-- The epoch that `forward` computes. -/
def epochAt (w : World) : ℕ :=
  (w.now - w.scheduler.startTime) / duration + 1

/-- What is due by an epoch before the last. -/
def due (w : World) (epoch : ℕ) : ℕ :=
  w.scheduler.startBalance * epoch / nEpochs

theorem due_mono (w : World) {e e' : ℕ} (h : e ≤ e') : due w e ≤ due w e' :=
  Nat.div_le_div_right (Nat.mul_le_mul_left _ h)

theorem due_le (w : World) {e : ℕ} (h : e < nEpochs) : due w e ≤ w.scheduler.startBalance :=
  Nat.div_le_of_le_mul ((Nat.mul_le_mul_left _ h.le).trans (Nat.mul_comm _ _).le)

/-! ## What `forward` does -/

theorem amountOf_eq_ok {e n : ℕ} (h : amountOf here w e = .ok n) :
    (nEpochs ≤ e ∧ n = w.bal.balanceOf here) ∨
      (e < nEpochs ∧ w.scheduler.forwardedBalance ≤ due w e ∧
        n = due w e - w.scheduler.forwardedBalance) := by
  unfold amountOf at h
  split_ifs at h with he
  · cases h
    exact .inl ⟨he, rfl⟩
  · obtain ⟨x, hx, h⟩ := bind_eq_ok.1 h
    obtain ⟨-, rfl⟩ := umul_eq_ok.1 hx
    obtain ⟨y, hy, h⟩ := bind_eq_ok.1 h
    obtain ⟨-, rfl⟩ := udiv_eq_ok.1 hy
    obtain ⟨hle, rfl⟩ := usub_eq_ok.1 h
    exact .inr ⟨not_le.1 he, hle, rfl⟩

theorem forward_eq_ok (h : forward here w = .ok w') : ∃ n bal,
    0 < w.scheduler.startTime ∧ w.scheduler.startTime ≤ w.now ∧
      amountOf here w (epochAt w) = .ok n ∧ 0 < n ∧
        w.scheduler.forwardedBalance + n < 2 ^ 256 ∧
          w.bal.transfer here w.scheduler._to n = .ok bal ∧ w' = { w with bal, scheduler :=
            { w.scheduler with forwardedBalance := w.scheduler.forwardedBalance + n } } := by
  obtain ⟨hstart, h⟩ := require_bind_eq_ok.1 h
  obtain ⟨elapsed, he, h⟩ := bind_eq_ok.1 h
  obtain ⟨hle, rfl⟩ := usub_eq_ok.1 he
  obtain ⟨x, hx, h⟩ := bind_eq_ok.1 h
  obtain ⟨-, rfl⟩ := udiv_eq_ok.1 hx
  obtain ⟨epoch, hep, h⟩ := bind_eq_ok.1 h
  obtain ⟨-, rfl⟩ := uadd_eq_ok.1 hep
  obtain ⟨n, hn, h⟩ := bind_eq_ok.1 h
  obtain ⟨f, hf, h⟩ := bind_eq_ok.1 h
  obtain ⟨hlt, rfl⟩ := uadd_eq_ok.1 hf
  obtain ⟨hpos, h⟩ := require_bind_eq_ok.1 h
  obtain ⟨bal, hb, h⟩ := bind_eq_ok.1 h
  cases h
  exact ⟨n, bal, hstart, hle, hn, hpos, hlt, hb, rfl⟩

/-! ## The invariant -/

variable (here) in
/-- The balance covers what is still to be forwarded, and no more is forwarded than is due. -/
structure Scheduled (w : World) : Prop where
  now_pos : 0 < w.now
  self_ne : here ≠ 0
  to_ne : w.scheduler._to ≠ 0
  to_ne_self : w.scheduler._to ≠ here
  approved : w.bal.approved here = 0
  started : w.scheduler.startTime ≤ w.now
  idle : w.scheduler.startTime = 0 → w.scheduler.forwardedBalance = 0
  covered : 0 < w.scheduler.startTime →
    w.scheduler.startBalance ≤ w.bal.balanceOf here + w.scheduler.forwardedBalance
  on_time : 0 < w.scheduler.startTime → epochAt w < nEpochs →
    w.scheduler.forwardedBalance ≤ due w (epochAt w)

theorem Scheduled.deployed (h : Deployed here w) : Scheduled here w := by
  have hs := h.scheduler
  refine ⟨h.now_pos, h.self_ne, h.to_ne, h.to_ne_self, h.approved, ?_, fun _ => ?_, fun hp => ?_,
    fun hp => ?_⟩
  · rw [hs]
    exact Nat.zero_le _
  · rw [hs]
  · rw [hs] at hp
    exact absurd hp (lt_irrefl 0)
  · rw [hs] at hp
    exact absurd hp (lt_irrefl 0)

theorem Scheduled.elsewhere (h : Scheduled here w) (he : Elsewhere here w w') :
    Scheduled here w' := by
  have hs := he.scheduler
  have hspent := he.bal.balanceOf
  have hless : w'.bal.approved here ≤ w.bal.approved here :=
    Finset.sum_le_sum fun b _ => he.bal.allowance b
  have happ := h.approved
  have hdue : due w' = due w := by
    unfold due
    rw [hs]
  have hepoch : epochAt w ≤ epochAt w' := by
    unfold epochAt
    rw [hs]
    exact Nat.add_le_add_right (Nat.div_le_div_right (Nat.sub_le_sub_right he.now _)) 1
  refine ⟨h.now_pos.trans_le he.now, h.self_ne, ?_, ?_, by omega, ?_, ?_, fun hp => ?_,
    fun hp hlt => ?_⟩
  · rw [hs]
    exact h.to_ne
  · rw [hs]
    exact h.to_ne_self
  · rw [hs]
    exact h.started.trans he.now
  · rw [hs]
    exact h.idle
  · rw [hs] at hp ⊢
    have hcov := h.covered hp
    omega
  · rw [hs] at hp
    rw [hs, hdue]
    exact (h.on_time hp (hepoch.trans_lt hlt)).trans (due_mono w hepoch)

theorem Scheduled.init (h : Scheduled here w) (hx : init here w sender = .ok w') :
    Scheduled here w' := by
  obtain ⟨-, hx⟩ := require_bind_eq_ok.1 hx
  obtain ⟨hzero, hx⟩ := require_bind_eq_ok.1 hx
  obtain ⟨-, hx⟩ := require_bind_eq_ok.1 hx
  cases hx
  have hnone := h.idle hzero
  refine ⟨h.now_pos, h.self_ne, h.to_ne, h.to_ne_self, h.approved, le_rfl, fun _ => hnone,
    fun _ => Nat.le_add_right _ _, fun _ _ => ?_⟩
  show w.scheduler.forwardedBalance ≤ _
  rw [hnone]
  exact Nat.zero_le _

/-- What `forward` does to the balances. -/
theorem Scheduled.forward_balances {n : ℕ} {bal : Erc20 Address} (h : Scheduled here w)
    (hb : w.bal.transfer here w.scheduler._to n = .ok bal) :
    bal.balanceOf here + n = w.bal.balanceOf here ∧
      bal.balanceOf w.scheduler._to = w.bal.balanceOf w.scheduler._to + n := by
  obtain ⟨-, -, hle, hmove, -, -⟩ := Erc20.transfer_eq_ok hb
  rw [hmove, move_src _ _ h.to_ne_self.symm, move_dst _ _ h.to_ne_self.symm]
  exact ⟨Nat.sub_add_cancel hle, rfl⟩

theorem Scheduled.forward (h : Scheduled here w) (hx : forward here w = .ok w') :
    Scheduled here w' := by
  obtain ⟨n, bal, hstart, hle, hn, -, -, hb, rfl⟩ := forward_eq_ok hx
  obtain ⟨hself, -⟩ := h.forward_balances hb
  have hcov := h.covered hstart
  refine ⟨h.now_pos, h.self_ne, h.to_ne, h.to_ne_self, ?_, hle, fun hz => ?_, fun _ => ?_,
    fun _ hlt => ?_⟩
  · exact (Erc20.approved_transfer hb here).trans h.approved
  · exact absurd hz hstart.ne'
  · show w.scheduler.startBalance ≤ bal.balanceOf here + (w.scheduler.forwardedBalance + n)
    omega
  · have hlt : epochAt w < nEpochs := hlt
    show w.scheduler.forwardedBalance + n ≤ due w (epochAt w)
    rcases amountOf_eq_ok hn with ⟨hlast, -⟩ | ⟨-, hdue, rfl⟩
    · omega
    · omega

theorem Scheduled.of_reachable (h : (system here).Reachable log w) : Scheduled here w := by
  refine h.induct (fun _ => Scheduled.deployed) (fun _ _ _ => Scheduled.elsewhere) ?_
  intro log w w' sender c h _ hx
  cases c with
  | init => exact h.init hx
  | forward => exact h.forward hx

/-! ## The main result -/

/-- Nothing but its amount keeps a `forward` from succeeding. -/
theorem Scheduled.forward_returns {n : ℕ} (h : Scheduled here w)
    (hstart : 0 < w.scheduler.startTime) (hnow : w.now < 2 ^ 256)
    (hn : amountOf here w (epochAt w) = .ok n) (hpos : 0 < n)
    (hle : n ≤ w.bal.balanceOf here) (hlt : w.scheduler.forwardedBalance + n < 2 ^ 256) :
    ∃ w', FeeScheduler.forward here w = .ok w' := by
  obtain ⟨bal, hb⟩ := w.bal.exists_transfer h.self_ne h.to_ne hle
  have hdur : 0 < duration := by decide
  have hdiv : (w.now - w.scheduler.startTime) / duration + 1 < 2 ^ 256 := by
    have hone : duration * ((w.now - w.scheduler.startTime) / duration) ≤ w.now :=
      (Nat.mul_div_le _ _).trans (Nat.sub_le _ _)
    have htwo : 2 * ((w.now - w.scheduler.startTime) / duration) ≤
        duration * ((w.now - w.scheduler.startTime) / duration) :=
      Nat.mul_le_mul_right _ (by decide)
    omega
  unfold epochAt at hn
  unfold FeeScheduler.forward
  dsimp only
  rw [require_of hstart, ok_bind, sub, usub_of h.started, ok_bind, div, udiv_of hdur.ne', ok_bind,
    add, uadd_of hdiv, ok_bind, hn, ok_bind, uadd_of hlt, ok_bind, require_of hpos, ok_bind, hb]
  exact ⟨_, rfl⟩

/-- In every run of a scheduler that was started : before the fifth epoch no more is forwarded
than is due, and `forward` returns exactly if less is, unless `startBalance * epoch` overflows.
It then tops up to what is due, whatever was forwarded before. From the fifth epoch on it
returns exactly if anything is left, unless the total overflows. It forwards all that is left,
and by then nothing of the start balance is missing. -/
theorem forward_law (h : (system here).Reachable log w) (hstart : 0 < w.scheduler.startTime)
    (hnow : w.now < 2 ^ 256) :
    (epochAt w < nEpochs →
      w.scheduler.forwardedBalance ≤ due w (epochAt w) ∧
      (w.scheduler.startBalance * epochAt w < 2 ^ 256 →
        ((∃ w', forward here w = .ok w') ↔ w.scheduler.forwardedBalance < due w (epochAt w))) ∧
      ∀ w', forward here w = .ok w' → w'.scheduler.forwardedBalance = due w (epochAt w) ∧
        w'.bal.balanceOf w.scheduler._to + w.scheduler.forwardedBalance =
          w.bal.balanceOf w.scheduler._to + due w (epochAt w)) ∧
    (nEpochs ≤ epochAt w →
      ((∃ w', forward here w = .ok w') ↔ 0 < w.bal.balanceOf here ∧
        w.scheduler.forwardedBalance + w.bal.balanceOf here < 2 ^ 256) ∧
      ∀ w', forward here w = .ok w' →
        w'.bal.balanceOf here = 0 ∧ w.scheduler.startBalance ≤ w'.scheduler.forwardedBalance ∧
          w'.bal.balanceOf w.scheduler._to =
            w.bal.balanceOf w.scheduler._to + w.bal.balanceOf here) := by
  have hs := Scheduled.of_reachable h
  have hcov := hs.covered hstart
  refine ⟨fun hlt => ⟨hs.on_time hstart hlt, fun hfit => ⟨?_, fun hless => ?_⟩, fun w' hx => ?_⟩,
    fun hlast => ⟨⟨?_, fun ⟨hpos, hfit⟩ => ?_⟩, fun w' hx => ?_⟩⟩
  · rintro ⟨w', hx⟩
    obtain ⟨n, bal, -, -, hn, hpos, -, -, -⟩ := forward_eq_ok hx
    rcases amountOf_eq_ok hn with ⟨hlast, -⟩ | ⟨-, -, rfl⟩
    · omega
    · exact Nat.lt_of_sub_pos hpos
  · -- the balance covers the difference, as no more than the start balance is due
    have hdue := due_le w hlt
    have hbal := w.bal.balanceOf_le here
    have hsup := w.bal.totalSupply_lt
    have hsmall : due w (epochAt w) < 2 ^ 256 := (Nat.div_le_self _ _).trans_lt hfit
    have hn : amountOf here w (epochAt w) =
        .ok (due w (epochAt w) - w.scheduler.forwardedBalance) := by
      have h5 : nEpochs ≠ 0 := by decide
      unfold amountOf
      rw [if_neg (not_le.2 hlt), mul, umul_of hfit, ok_bind, div, udiv_of h5, ok_bind]
      exact usub_of hless.le
    exact hs.forward_returns hstart hnow hn (Nat.sub_pos_of_lt hless) (by omega) (by omega)
  · obtain ⟨n, bal, -, -, hn, -, -, hb, rfl⟩ := forward_eq_ok hx
    obtain ⟨-, hto⟩ := hs.forward_balances hb
    rcases amountOf_eq_ok hn with ⟨hlast, -⟩ | ⟨-, hle, rfl⟩
    · omega
    · dsimp only
      exact ⟨by omega, by omega⟩
  · rintro ⟨w', hx⟩
    obtain ⟨n, bal, -, -, hn, hpos, hlt, -, -⟩ := forward_eq_ok hx
    rcases amountOf_eq_ok hn with ⟨-, rfl⟩ | ⟨hearly, -, -⟩
    · exact ⟨hpos, hlt⟩
    · omega
  · exact hs.forward_returns hstart hnow (if_pos hlast) hpos le_rfl hfit
  · obtain ⟨n, bal, -, -, hn, -, -, hb, rfl⟩ := forward_eq_ok hx
    obtain ⟨hself, hto⟩ := hs.forward_balances hb
    rcases amountOf_eq_ok hn with ⟨-, rfl⟩ | ⟨hlt, -, -⟩
    · dsimp only
      exact ⟨by omega, by omega, hto⟩
    · omega

/-! ## Runs -/

/-- A scheduler at the address 300 that holds 1002 of the token and sends to 400. -/
def World.initial : World where
  now := 1000
  bal := Erc20.single 300 1002 (by decide) fun _ _ => 0
  scheduler := ⟨10, 400, 0, 0, 0⟩

theorem World.initial_deployed : Deployed 300 World.initial where
  now_pos := by decide
  self_ne := by decide
  to_ne := show (400 : Address) ≠ 0 by decide
  to_ne_self := show (400 : Address) ≠ 300 by decide
  scheduler := rfl
  approved := Finset.sum_eq_zero fun _ _ => rfl

/-- The world at a later time. -/
def World.at (w : World) (now : ℕ) : World :=
  { w with now }

theorem World.elsewhere_at (w : World) (now : ℕ) (h : w.now ≤ now) : Elsewhere here w (w.at now) :=
  ⟨h, rfl, .refl _ _⟩

/-- A `forward` in the second epoch after one in the first. -/
theorem forward_law_run : ∃ log w w', (system 300).Reachable log w ∧
    w.scheduler.forwardedBalance = 200 ∧ forward 300 w = .ok w' ∧
      w'.scheduler.forwardedBalance = 400 := by
  let log : List (Event Address Call) := [⟨1000, 10, .init⟩, ⟨1000, 1, .forward⟩]
  have hvalues : ((system 300).play World.at World.initial log).map
      (fun w => (w.now, w.scheduler)) = .ok (1000, ⟨10, 400, 1000, 1002, 200⟩) := by decide +kernel
  cases hw : (system 300).play World.at World.initial log with
  | error e =>
    rw [hw] at hvalues
    cases hvalues
  | ok w =>
    rw [hw] at hvalues
    obtain ⟨hnow, hs⟩ := Prod.mk.inj (Except.ok.inj hvalues)
    have hsteps : (system 300).Steps World.initial log w := .play World.elsewhere_at hw
    have hlater : w.now ≤ 174000 := by omega
    have hreach : (system 300).Reachable log (w.at 174000) :=
      ⟨_, World.initial_deployed, .elsewhere hsteps (w.elsewhere_at 174000 hlater)⟩
    have hs' : (w.at 174000).scheduler = ⟨10, 400, 1000, 1002, 200⟩ := hs
    have hepoch : epochAt (w.at 174000) = 2 := by
      unfold epochAt
      rw [hs']
      show (174000 - 1000) / duration + 1 = 2
      decide
    have hdue : due (w.at 174000) 2 = 400 := by
      unfold due
      rw [hs']
      rfl
    obtain ⟨hlaw, -⟩ := forward_law hreach (by rw [hs']; decide)
      (show 174000 < 2 ^ 256 by decide)
    rw [hepoch, hdue, hs'] at hlaw
    obtain ⟨-, hiff, hsends⟩ := hlaw (by decide)
    obtain ⟨w', hx⟩ := (hiff (by decide)).2 (by decide)
    exact ⟨log, _, w', hreach, by rw [hs'], hx, (hsends w' hx).1⟩

end FeeScheduler

end Aura.Compounder
