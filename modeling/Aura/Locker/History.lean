import Aura.Locker.PastVotes
import Aura.Locker.Supply

/-!
# AuraLocker : history

What has been answered about the past stays so. Locks count from the next week on and so do
delegations, so the ballot of a later state agrees with the ballot of now up to the current
week (`Past`), and the views read nothing but the ballot.
-/

open Evm

namespace Aura.Locker

open AuraMath

variable {first n now : ℕ} {log : List Event} {s s' : Storage}

/-! ## The ballot of the past -/

/-- A change either leaves the ballot alone or lets a user acquire weight for later weeks. -/
theorem LedgerInv.agree_change (h : LedgerInv first now s) (hfit : Fits now)
    (hch : Change now s s') : Ballot.Agree (week now) (ballot log s.ledger.userLocks)
      (ballot log s'.ledger.userLocks) := by
  obtain ⟨n, hd⟩ := h.dated hfit
  have hacquire : ∀ (b : Ballot Address Address) (a : Address) (m : ℕ), b.term = 16 →
      Ballot.Agree (week now) b (b.acquire a (week now + 17) m) :=
    fun b a m hb => b.agree_acquire a m (by omega)
  cases hch with
  | other hl _ _ _ _ =>
    rw [hl]
    exact .refl _ _
  | checkpoint hl _ _ =>
    rw [(checkpointEpoch_keeps hl).2.1]
    exact .refl _ _
  | lock hl =>
    rw [ballot_lock hd hfit hl]
    exact hacquire _ _ _ rfl
  | expire hx =>
    rw [hx.ledger]
    exact .refl _ _
  | relock hx hl =>
    rw [ballot_lock (hd.expire h.sums hx) hfit hl, hx.ledger]
    exact hacquire _ _ _ rfl
  | emergencyWithdraw _ _ hs =>
    rw [hs]
    exact .refl _ _

/-- A state after week `n` whose ballot agrees with `b` up to week `n`. -/
structure Past (first n : ℕ) (b : Ballot Address Address) (log : List Event) (now : ℕ)
    (s : Storage) : Prop where
  votes : VotesInv first log now s
  le : n ≤ week now
  agree : Fits now → Ballot.Agree n b (ballot log s.ledger.userLocks)

theorem inductive_past (first n : ℕ) (b : Ballot Address Address) :
    Inductive (Past first n b) where
  time h hn :=
    ⟨(inductive_votesInv first).time h.votes hn, h.le.trans (week_mono hn),
      fun hfit => h.agree (hfit.mono hn)⟩
  change h hch :=
    ⟨h.votes.change hch, h.le,
      fun hfit => (h.agree hfit).trans ((h.votes.ledger.agree_change hfit hch).mono h.le)⟩
  delegate {log now s s' u D} h hx := by
    refine ⟨h.votes.delegate hx, h.le, fun hfit => (h.agree hfit).trans ?_⟩
    obtain ⟨-, -, -, _, _, -, -, -, hs⟩ := delegate_eq_ok hx
    have hlocks : s'.ledger = s.ledger := by rw [hs]
    rw [hlocks, ballot_delegate]
    exact Ballot.agree_redelegate _ u D (Nat.lt_succ_of_le h.le)
  log {log now s u c} h hc :=
    ⟨(inductive_votesInv first).log h.votes hc, h.le,
      fun hfit => by rw [ballot_log _ _ _ _ hc]; exact h.agree hfit⟩

/-! ## The views -/

/-- The views of an epoch that has begun, in terms of the ballot. In the first seventeen
weeks of the chain they revert. -/
theorem Dated.epoch_views {e : ℕ} (h : Dated first n now s) (log : List Event)
    (hE : epochStartOf s e = .ok ((first + e) * rewardsDuration))
    (hlt : (first + e) * rewardsDuration < now) :
    (∀ u, balanceAtEpochOf s now e u = if 17 ≤ first + e then
      .ok ((ballot log s.ledger.userLocks).active u (first + e)) else .error .underflow) ∧
    totalSupplyAtEpoch s now e = if 17 ≤ first + e then
      .ok (∑ u, (ballot log s.ledger.userLocks).active u (first + e)) else .error .underflow := by
  by_cases hk : 17 ≤ first + e
  · simp only [if_pos hk, active_ballot log h, h.sum_activeAmount hk]
    exact ⟨h.balanceAtEpochOf_eq hk hE hlt, h.totalSupplyAtEpoch_eq hk hE hlt⟩
  · have hsub : sub ((first + e) * rewardsDuration) lockDuration = .error .underflow := by
      refine usub_of_lt ?_
      rw [lockDuration_eq]
      exact Nat.mul_lt_mul_of_pos_right (not_le.1 hk) rewardsDuration_pos
    simp only [if_neg hk]
    constructor
    · intro u
      unfold balanceAtEpochOf
      rw [hE, ok_bind, require_of hlt, ok_bind, hsub]
      rfl
    · unfold totalSupplyAtEpoch
      rw [hE, ok_bind, require_of hlt, ok_bind, hsub]
      rfl

/-- As long as unlock times fit in `uint32`, what the views answer about the past at one
time of a run they answer ever after. -/
theorem history_immutable {log₁ log₂ : List Event} {w w' : World} (h : Reachable log₁ w)
    (hs : Steps w log₂ w') (hfit : Fits w'.now) :
    (∀ e E, epochStartOf w.locker e = .ok E → E < w.now →
      (∀ u, balanceAtEpochOf w'.locker w'.now e u = balanceAtEpochOf w.locker w.now e u) ∧
        totalSupplyAtEpoch w'.locker w'.now e = totalSupplyAtEpoch w.locker w.now e) ∧
    ∀ D t, t ≤ w.now → getPastVotes w'.locker w'.now D t = getPastVotes w.locker w.now D t := by
  obtain ⟨first, hinv⟩ := h.votesInv
  have hpast := (inductive_past first (week w.now) _).steps log₁
    ⟨hinv, le_rfl, fun _ => .refl _ _⟩ hs
  have hn := hs.now_le
  obtain ⟨n, hd⟩ := hinv.ledger.dated (hfit.mono hn)
  obtain ⟨n', hd'⟩ := hpast.votes.ledger.dated hfit
  have hc := hinv.counted (hfit.mono hn)
  have hc' := hpast.votes.counted hfit
  have hagree := hpast.agree hfit
  refine ⟨fun e E hE hlt => ?_, fun D t ht => ?_⟩
  · have hE' : epochStartOf w'.locker e = .ok E := by
      rw [← hE, hd.epochStartOf_first, hd'.epochStartOf_first]
    obtain rfl := hd.epochStartOf_eq hE
    have hk : first + e ≤ week w.now :=
      (Nat.le_div_iff_mul_le rewardsDuration_pos).2 hlt.le
    obtain ⟨hb, ht⟩ := hd.epoch_views log₁ hE hlt
    obtain ⟨hb', ht'⟩ := hd'.epoch_views (log₁ ++ log₂) hE' (hlt.trans_le hn)
    simp only [hb, hb', ht, ht', hagree.active _ _ hk, implies_true, and_self]
  · have hk : week t ≤ week w.now := week_mono ht
    rw [(hc.recorded D).getPastVotes_eq hc.term_le (fun j _ => hc.unlocks D j) ht (by omega),
      (hc'.recorded D).getPastVotes_eq hc'.term_le (fun j _ => hc'.unlocks D j) (ht.trans hn)
        (by have := week_mono hn; omega), hagree.votes_eq D hk]

/-- The account 1 locks and delegates to 2 in week 20. What is known of week 21 in week 22
stays so when 1 locks more and delegates back to itself. -/
theorem history_immutable_run : ∃ w w' : World,
    w'.locker ≠ w.locker ∧
      totalSupplyAtEpoch w'.locker w'.now 1 = totalSupplyAtEpoch w.locker w.now 1 ∧
      getPastVotes w'.locker w'.now 2 w.now = getPastVotes w.locker w.now 2 w.now := by
  let start := 20 * rewardsDuration
  let log₁ : List Event := [⟨start, 1, .lock 1 5⟩, ⟨start, 1, .delegate 2⟩,
    ⟨start + 2 * rewardsDuration, 1, .checkpointEpoch⟩]
  let log₂ : List Event := [⟨start + 2 * rewardsDuration, 1, .lock 1 5⟩,
    ⟨start + 2 * rewardsDuration, 1, .delegate 1⟩,
    ⟨start + 3 * rewardsDuration, 1, .checkpointEpoch⟩]
  let w := (World.initial start).after log₁
  have h : Reachable log₁ w := ⟨_, World.initial_deployed (by decide), .after (by decide +kernel)⟩
  have hs : Steps w log₂ (w.after log₂) := .after (by decide +kernel)
  obtain ⟨hviews, hvotes⟩ := history_immutable h hs (by decide +kernel)
  refine ⟨w, w.after log₂, fun he => ?_, ?_, hvotes 2 _ le_rfl⟩
  · have hlen : (w.after log₂).locker.ledger.epochs.length ≠ w.locker.ledger.epochs.length := by
      decide +kernel
    exact hlen (by rw [he])
  · exact (hviews 1 _ (show epochStartOf _ 1 = .ok (21 * rewardsDuration) by decide +kernel)
      (by decide +kernel)).2

/-- After a lock whose unlock time does not fit in `uint32`, `balanceAtEpochOf` reverts for an
epoch for which it returned before. -/
theorem history_truncated : ¬∀ {log₁ log₂ : List Event} {w w' : World}, Reachable log₁ w →
    Steps w log₂ w' → ∀ e E, epochStartOf w.locker e = .ok E → E < w.now →
      ∀ u, balanceAtEpochOf w'.locker w'.now e u = balanceAtEpochOf w.locker w.now e u := by
  intro h
  let start := 7085 * rewardsDuration
  let log₁ : List Event := [⟨start + 1, 1, .checkpointEpoch⟩]
  let log₂ : List Event := [⟨start + 1, 1, .lock 1 5⟩]
  let w := (World.initial start).after log₁
  have hw : Reachable log₁ w := ⟨_, World.initial_deployed (by decide), .after (by decide +kernel)⟩
  have hs : Steps w log₂ (w.after log₂) := .after (by decide +kernel)
  have heq := h hw hs 0 start (by decide +kernel) (by decide +kernel) 1
  have hbefore : balanceAtEpochOf w.locker w.now 0 1 = .ok 0 := by decide +kernel
  have hafter : balanceAtEpochOf (w.after log₂).locker (w.after log₂).now 0 1 =
      .error .underflow := by decide +kernel
  rw [hbefore, hafter] at heq
  cases heq

end Aura.Locker
