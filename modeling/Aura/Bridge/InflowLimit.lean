import Aura.Bridge.Queue

/-!
# Bridge : the inflow limit of PausableProxyOFT

In no epoch does `_safeCreditTo` credit more than what left in the epoch and the limit,
whatever the order of sends and receipts : a receipt counts in full, also when it is queued,
and the outflow only grows.
-/

open Evm Function

namespace Aura.Bridge

/-- What `_safeCreditTo` credited in the epoch `e`. -/
def Event.creditedIn (e : ℕ) : Event → ℕ
  | .received e' n _ => if e' = e then n else 0
  | _ => 0

/-- What `_safeCreditTo` was passed in the epoch `e`. -/
def Event.passedIn (e : ℕ) : Event → ℕ
  | .received e' n _ => if e' = e then n else 0
  | .queued t => if t.epoch = e then t.amount else 0
  | _ => 0

/-- A credit while the bridge was paused. -/
def Event.creditedPaused : Event → Bool
  | .received _ _ paused => paused
  | .processed _ _ _ paused => paused
  | _ => false

/-- What `_safeCreditTo` credited in the epoch `e` of a run. -/
def creditedIn (e : ℕ) (log : List Event) : ℕ :=
  (log.map (Event.creditedIn e)).sum

/-- What `_safeCreditTo` was passed in the epoch `e` of a run. -/
def passedIn (e : ℕ) (log : List Event) : ℕ :=
  (log.map (Event.passedIn e)).sum

/-- Every transfer that was processed had been queued, longer ago than the delay. -/
def Delayed (log : List Event) : Prop :=
  ∀ newer older t timestamp queueDelay paused,
    log = newer ++ .processed t timestamp queueDelay paused :: older →
      .queued t ∈ older ∧ t.timestamp + queueDelay < timestamp

@[simp] theorem creditedIn_cons (e : ℕ) (ev : Event) (log : List Event) :
    creditedIn e (ev :: log) = ev.creditedIn e + creditedIn e log := by
  simp [creditedIn]

@[simp] theorem passedIn_cons (e : ℕ) (ev : Event) (log : List Event) :
    passedIn e (ev :: log) = ev.passedIn e + passedIn e log := by
  simp [passedIn]

theorem creditedIn_le_passedIn (e : ℕ) : ∀ log, creditedIn e log ≤ passedIn e log
  | [] => le_rfl
  | ev :: log => by
    rw [creditedIn_cons, passedIn_cons]
    refine add_le_add ?_ (creditedIn_le_passedIn e log)
    cases ev <;> simp [Event.creditedIn, Event.passedIn]

/-- A newer event that processes nothing. -/
theorem Delayed.cons {ev : Event} {log : List Event} (h : Delayed log)
    (hev : ∀ t timestamp queueDelay paused, ev = .processed t timestamp queueDelay paused →
      .queued t ∈ log ∧ t.timestamp + queueDelay < timestamp) : Delayed (ev :: log) := by
  intro newer older t timestamp queueDelay paused heq
  cases newer with
  | nil =>
    obtain ⟨hhead, rfl⟩ := List.cons.inj heq
    exact hev t timestamp queueDelay paused hhead
  | cons _ newer => exact h newer older t timestamp queueDelay paused (List.cons.inj heq).2

theorem queued_mem {t : Transfer} {log : List Event} (h : t ∈ queuedOf log) :
    .queued t ∈ log := by
  unfold queuedOf at h
  obtain ⟨ev, hev, ht⟩ := List.mem_filterMap.1 h
  cases ev with
  | queued u =>
    obtain rfl := Option.some.inj ht
    exact hev
  | received _ _ _ => cases ht
  | processed _ _ _ _ => cases ht
  | setInflowLimit _ => cases ht

variable {σ : Type}

namespace ProxyOft

/-- The limit `L` is kept. -/
structure Limited (L : ℕ) (log : List Event) (p : ProxyOft σ) : Prop where
  limit : p.inflowLimit = L
  inflow : ∀ e, p.inflow e = passedIn e log
  credited : ∀ e, creditedIn e log ≤ p.outflow e + L
  unpaused : ∀ ev ∈ log, ev.creditedPaused = false
  delayed : Delayed log

variable {p p' : ProxyOft σ} {log es : List Event} {L : ℕ}

theorem Fresh.limited (h : p.Fresh) (hL : p.inflowLimit = L) : Limited L [] p where
  limit := hL
  inflow e := h.inflow e
  credited _ := Nat.zero_le _
  unpaused := nofun
  delayed newer := by cases newer <;> nofun

/-- What an arrival of `n` in the current epoch adds to the inflow. -/
theorem inflow_arrival {n : ℕ} {ev : Event} (h : ∀ e, p.inflow e = passedIn e log) {e₀ : ℕ}
    (hp : p'.inflow = update p.inflow e₀ (p.inflow e₀ + n))
    (hev : ∀ e, ev.passedIn e = if e₀ = e then n else 0) (e : ℕ) :
    p'.inflow e = passedIn e (ev :: log) := by
  rw [hp, passedIn_cons, hev]
  by_cases he : e = e₀
  · rw [he, update_self, if_pos rfl, h, Nat.add_comm]
  · rw [update_of_ne he, if_neg (Ne.symm he), h, Nat.zero_add]

variable [Heir σ]

theorem Limited.step (h : Limited L log p) (hq : Queued log p) (hl : Logged p p' es)
    (hset : ∀ n, .setInflowLimit n ∈ es → n = L) : Limited L (es ++ log) p' := by
  cases hl with
  | quiet _ hin hout hlim _ =>
    exact ⟨hlim.trans h.limit, fun e => by rw [hin]; exact h.inflow e,
      fun e => (h.credited e).trans (Nat.add_le_add_right (hout e) L), h.unpaused, h.delayed⟩
  | limited n hlim _ hin hout _ =>
    refine ⟨hlim.trans (hset n List.mem_cons_self), fun e => ?_, fun e => ?_,
      List.forall_mem_cons.2 ⟨rfl, h.unpaused⟩, h.delayed.cons nofun⟩
    · rw [hin, List.singleton_append, passedIn_cons]
      exact (h.inflow e).trans (Nat.zero_add _).symm
    · rw [List.singleton_append, creditedIn_cons, hout]
      exact (Nat.zero_add _).trans_le (h.credited e)
  | received n hunpaused hle _ hin hout hlim _ =>
    refine ⟨hlim.trans h.limit, inflow_arrival h.inflow hin fun _ => rfl, fun e => ?_,
      List.forall_mem_cons.2 ⟨hunpaused, h.unpaused⟩, h.delayed.cons nofun⟩
    rw [List.singleton_append, creditedIn_cons, hout]
    unfold Event.creditedIn
    dsimp only
    split_ifs with he
    · -- what came in before bounds what was credited before
      have hbefore := creditedIn_le_passedIn e log
      rw [← he, h.limit] at *
      have := h.inflow p._getCurrentEpoch
      omega
    · rw [Nat.zero_add]
      exact h.credited e
  | queued t _ _ _ hin hout hlim _ =>
    refine ⟨hlim.trans h.limit, inflow_arrival h.inflow hin fun _ => rfl, fun e => ?_,
      List.forall_mem_cons.2 ⟨rfl, h.unpaused⟩, h.delayed.cons nofun⟩
    rw [List.singleton_append, creditedIn_cons, hout]
    exact (Nat.zero_add _).trans_le (h.credited e)
  | processed t hunpaused hset' hdue _ hin hout hlim _ =>
    refine ⟨hlim.trans h.limit, fun e => ?_, fun e => ?_,
      List.forall_mem_cons.2 ⟨hunpaused, h.unpaused⟩, h.delayed.cons ?_⟩
    · rw [hin, List.singleton_append, passedIn_cons]
      exact (h.inflow e).trans (Nat.zero_add _).symm
    · rw [List.singleton_append, creditedIn_cons, hout]
      exact (Nat.zero_add _).trans_le (h.credited e)
    · rintro u timestamp queueDelay paused heq
      cases heq
      exact ⟨queued_mem ((hq.kept.set_iff t).1 hset').1, hdue⟩

theorem Run.limited [Forward σ] {p₀ : ProxyOft σ} (h₀ : p₀.Fresh) (hL : p₀.inflowLimit = L)
    (h : Run p₀ log p) (hset : ∀ n, .setInflowLimit n ∈ log → n = L) : Limited L log p := by
  refine (h.induct (P := fun log p => Queued log p ∧
    ((∀ n, .setInflowLimit n ∈ log → n = L) → Limited L log p)) ⟨h₀.queued, fun _ => h₀.limited hL⟩
    fun log es p p' ih hl => ⟨ih.1.step hl, fun hset => ?_⟩).2 hset
  exact (ih.2 fun n hn => hset n (List.mem_append_right _ hn)).step ih.1 hl
    fun n hn => hset n (List.mem_append_left _ hn)

end ProxyOft

open ProxyOft

/-- With a constant limit `L` : what is credited at once in an epoch is at most its outflow
and `L`, the inflow is all that arrived, nothing is credited while the bridge is paused, and
what is processed was queued longer ago than the delay. A call does to the heir what it records :
it credits the amounts that are recorded as credited, and no others. -/
theorem inflow_limited [Heir σ] [Forward σ] {p₀ p : ProxyOft σ} {log : List Event} {L : ℕ}
    (h₀ : p₀.Fresh) (hL : p₀.inflowLimit = L) (h : Run p₀ log p)
    (hset : ∀ n, .setInflowLimit n ∈ log → n = L) :
    (∀ e, creditedIn e log ≤ p.outflow e + L) ∧ (∀ e, p.inflow e = passedIn e log) ∧
      (∀ ev ∈ log, ev.creditedPaused = false) ∧ Delayed log ∧
      ∀ sender c p', p.exec sender c = .ok p' → Told p p' sender c (p.record c) := by
  have hl := Run.limited h₀ hL h hset
  exact ⟨hl.credited, hl.inflow, hl.unpaused, hl.delayed, fun _ _ _ => exec_told⟩

/-- A bridge of auraBAL just deployed, with the inflow limit 10. -/
def auraBalProxy : ProxyOft AuraBalProxy :=
  (Network.initial 1 (.initial 0) 10).proxy

/-- After 100 left, 60 come in at once and 70 wait, which leaves the proxy as it is. -/
theorem inflow_limited_run : ∃ (log : List Event) (p p' : ProxyOft AuraBalProxy),
    passedIn 0 log = 60 ∧ creditedIn 0 log = 60 ∧ (∀ e, creditedIn e log ≤ p.outflow e + 10) ∧
      p.exec 9 (.lzReceive 2 (.send (encodePacked 3) 70)) = .ok p' ∧
        Told p p' 9 (.lzReceive 2 (.send (encodePacked 3) 70)) [.queued ⟨0, 2, 3, 70, 1⟩] := by
  let es : List (Address × ProxyCall AuraBalProxy.Own) :=
    [(1, .sendFrom 1 2 (encodePacked 2) 100), (9, .lzReceive 2 (.send (encodePacked 2) 60)),
      (401, .setInflowLimit 10)]
  let p := (auraBalProxy.after es).2
  have hrun : Run auraBalProxy (auraBalProxy.after es).1 p := .after (by decide +kernel)
  have hlog : (auraBalProxy.after es).1 = [.setInflowLimit 10, .received 0 60 false] := by
    decide +kernel
  obtain ⟨p', hx⟩ := Tx.exists_ok
    (show (p.exec 9 (.lzReceive 2 (.send (encodePacked 3) 70))).returns = true by decide +kernel)
  have hrecord : p.record (.lzReceive 2 (.send (encodePacked 3) 70)) =
      [.queued ⟨0, 2, 3, 70, 1⟩] := by decide +kernel
  rw [hlog] at hrun
  obtain ⟨hcredited, -, -, -, htold⟩ :=
    inflow_limited (L := 10) ⟨fun _ => rfl, fun _ => rfl⟩ rfl hrun (by simp)
  exact ⟨_, p, p', by decide, by decide, hcredited, hx, hrecord ▸ htold 9 _ p' hx⟩

end Aura.Bridge
