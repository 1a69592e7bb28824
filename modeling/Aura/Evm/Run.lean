import Aura.Evm.Tx

/-!
# Runs of a contract

A system is a contract with all of its surroundings as one state : what can call it, what a
call does, what else may happen between two calls, and which states are those right after
the deployment. A run logs the calls that succeed, each with its time and its sender; a call
that reverts is no step.

`Reachable.induct` is the rule for invariants that also mention the log, and
`Steps.invariant` the one for those that do not. A `Traced` run keeps the states in which its
calls were made, for results that speak of them. A run on concrete inputs is computed by `play`.
-/

namespace Evm

/-- A contract and its surroundings. -/
structure System (W A C : Type) where
  now : W → ℕ
  /-- What can call the contract. -/
  IsCaller : W → A → Prop
  exec : W → A → C → Tx W
  /-- What happens outside the contract. -/
  Elsewhere : W → W → Prop
  Deployed : W → Prop

/-- A successful call. -/
structure Event (A C : Type) where
  time : ℕ
  sender : A
  call : C
  deriving DecidableEq

namespace System

variable {W A C : Type}

/-- A run, with the log of its successful calls. -/
inductive Steps (S : System W A C) (w : W) : List (Event A C) → W → Prop
  | refl : S.Steps w [] w
  | elsewhere {log : List (Event A C)} {w₁ w₂ : W} :
      S.Steps w log w₁ → S.Elsewhere w₁ w₂ → S.Steps w log w₂
  | call {log : List (Event A C)} {w₁ w₂ : W} {sender : A} {c : C} :
      S.Steps w log w₁ → S.IsCaller w₁ sender → S.exec w₁ sender c = .ok w₂ →
        S.Steps w (log ++ [⟨S.now w₁, sender, c⟩]) w₂

/-- `w` is reached from a deployment by the calls of `log`. -/
def Reachable (S : System W A C) (log : List (Event A C)) (w : W) : Prop :=
  ∃ w₀, S.Deployed w₀ ∧ S.Steps w₀ log w

variable {S : System W A C} {log log₁ log₂ : List (Event A C)} {w w₁ w₂ : W}

theorem Steps.trans (h₁ : S.Steps w log₁ w₁) (h₂ : S.Steps w₁ log₂ w₂) :
    S.Steps w (log₁ ++ log₂) w₂ := by
  induction h₂ with
  | refl => simpa using h₁
  | elsewhere _ he ih => exact .elsewhere ih he
  | call _ hs hx ih =>
    rw [← List.append_assoc]
    exact .call ih hs hx

/-- An invariant of the log and the state that a deployment has and every step keeps. -/
theorem Reachable.induct {P : List (Event A C) → W → Prop} (deployed : ∀ w, S.Deployed w → P [] w)
    (elsewhere : ∀ log w w', P log w → S.Elsewhere w w' → P log w')
    (call : ∀ log w w' sender c, P log w → S.IsCaller w sender → S.exec w sender c = .ok w' →
      P (log ++ [⟨S.now w, sender, c⟩]) w') (h : S.Reachable log w) : P log w := by
  obtain ⟨w₀, h₀, hs⟩ := h
  induction hs with
  | refl => exact deployed w₀ h₀
  | elsewhere _ he ih => exact elsewhere _ _ _ ih he
  | call _ hc hx ih => exact call _ _ _ _ _ ih hc hx

/-- An invariant of the state that a run keeps from where it starts. -/
theorem Steps.invariant {P : W → Prop} (elsewhere : ∀ w w', P w → S.Elsewhere w w' → P w')
    (call : ∀ w w' sender c, P w → S.IsCaller w sender → S.exec w sender c = .ok w' → P w')
    (h₀ : P w) (h : S.Steps w log w₁) : P w₁ := by
  induction h with
  | refl => exact h₀
  | elsewhere _ he ih => exact elsewhere _ _ ih he
  | call _ hc hx ih => exact call _ _ _ _ ih hc hx

/-- A simulation : related states stay related when each step, with a call of which `P` holds,
is matched by one of the other system. -/
theorem Steps.simulate {W' A' C' : Type} {S' : System W' A' C'} {R : W → W' → Prop}
    {P : Event A C → Prop} {g : Event A C → Event A' C'} {v : W'}
    (elsewhere : ∀ w w₁ v, R w v → S.Elsewhere w w₁ → ∃ v₁, S'.Elsewhere v v₁ ∧ R w₁ v₁)
    (call : ∀ w w₁ v sender c, R w v → S.IsCaller w sender → P ⟨S.now w, sender, c⟩ →
      S.exec w sender c = .ok w₁ → ∃ v₁ sender' c',
        g ⟨S.now w, sender, c⟩ = ⟨S'.now v, sender', c'⟩ ∧
        S'.IsCaller v sender' ∧ S'.exec v sender' c' = .ok v₁ ∧ R w₁ v₁)
    (h : S.Steps w log w₁) (hP : ∀ e ∈ log, P e) (hR : R w v) :
    ∃ v₁, S'.Steps v (log.map g) v₁ ∧ R w₁ v₁ := by
  induction h with
  | refl => exact ⟨v, .refl, hR⟩
  | elsewhere _ he ih =>
    obtain ⟨v₁, hs, hR₁⟩ := ih hP
    obtain ⟨v₂, he', hR₂⟩ := elsewhere _ _ _ hR₁ he
    exact ⟨v₂, .elsewhere hs he', hR₂⟩
  | call _ hc hx ih =>
    obtain ⟨v₁, hs, hR₁⟩ := ih fun e he => hP e (List.mem_append_left _ he)
    have hPlast := hP _ (List.mem_append_right _ (List.mem_singleton_self _))
    obtain ⟨v₂, sender', c', hg, hc', hx', hR₂⟩ := call _ _ _ _ _ hR₁ hc hPlast hx
    rw [List.map_append, List.map_singleton, hg]
    exact ⟨v₂, .call hs hc' hx', hR₂⟩

/-! ## Runs with their states -/

/-- A run, with its calls and the states in which they were made. -/
inductive Traced (S : System W A C) (w : W) : List (W × Event A C) → W → Prop
  | refl : S.Traced w [] w
  | elsewhere {trace : List (W × Event A C)} {w₁ w₂ : W} :
      S.Traced w trace w₁ → S.Elsewhere w₁ w₂ → S.Traced w trace w₂
  | call {trace : List (W × Event A C)} {w₁ w₂ : W} {sender : A} {c : C} :
      S.Traced w trace w₁ → S.IsCaller w₁ sender → S.exec w₁ sender c = .ok w₂ →
        S.Traced w (trace ++ [(w₁, ⟨S.now w₁, sender, c⟩)]) w₂

variable {trace trace' : List (W × Event A C)}

theorem Traced.trans (h₁ : S.Traced w trace w₁) (h₂ : S.Traced w₁ trace' w₂) :
    S.Traced w (trace ++ trace') w₂ := by
  induction h₂ with
  | refl => simpa using h₁
  | elsewhere _ he ih => exact .elsewhere ih he
  | call _ hs hx ih =>
    rw [← List.append_assoc]
    exact .call ih hs hx

/-- The calls returned in the states in which they were made. -/
theorem Traced.exec_eq_ok (h : S.Traced w trace w₁) {v : W} {e : Event A C}
    (hmem : (v, e) ∈ trace) : ∃ v', S.exec v e.sender e.call = .ok v' := by
  induction h with
  | refl => exact absurd hmem List.not_mem_nil
  | elsewhere _ _ ih => exact ih hmem
  | call _ _ hx ih =>
    rcases List.mem_append.1 hmem with hmem | hmem
    · exact ih hmem
    · cases List.mem_singleton.1 hmem
      exact ⟨_, hx⟩

/-! ## Computed runs -/

/-- The calls of a log, one after the other, each at its time. -/
def play (S : System W A C) (advance : W → ℕ → W) [∀ w a, Decidable (S.IsCaller w a)] :
    W → List (Event A C) → Tx W
  | w, [] => .ok w
  | w, e :: log =>
    if S.now w ≤ e.time ∧ S.now (advance w e.time) = e.time ∧
        S.IsCaller (advance w e.time) e.sender then
      S.exec (advance w e.time) e.sender e.call >>= (S.play advance · log)
    else .error .outOfGas

/-- A run that was computed. -/
theorem Steps.play {advance : W → ℕ → W} [∀ w a, Decidable (S.IsCaller w a)]
    (hadvance : ∀ w t, S.now w ≤ t → S.Elsewhere w (advance w t)) {w w' : W}
    {log : List (Event A C)} (h : S.play advance w log = .ok w') : S.Steps w log w' := by
  induction log generalizing w with
  | nil =>
    cases h
    exact .refl
  | cons e log ih =>
    unfold System.play at h
    split_ifs at h with hc
    obtain ⟨hnow, htime, hcaller⟩ := hc
    obtain ⟨w₁, hx, h⟩ := bind_eq_ok.1 h
    have hone : S.Steps w [⟨S.now (advance w e.time), e.sender, e.call⟩] w₁ :=
      .call (.elsewhere .refl (hadvance w e.time hnow)) hcaller hx
    rw [htime] at hone
    exact hone.trans (ih h)

/-- The calls of a log with the states in which they are made. -/
def traceOf (S : System W A C) (advance : W → ℕ → W) : W → List (Event A C) → List (W × Event A C)
  | _, [] => []
  | w, e :: log =>
    (advance w e.time, e) ::
      match S.exec (advance w e.time) e.sender e.call with
      | .ok w₁ => S.traceOf advance w₁ log
      | .error _ => []

theorem Traced.play {advance : W → ℕ → W} [∀ w a, Decidable (S.IsCaller w a)]
    (hadvance : ∀ w t, S.now w ≤ t → S.Elsewhere w (advance w t)) {w w' : W}
    {log : List (Event A C)} (h : S.play advance w log = .ok w') :
    S.Traced w (S.traceOf advance w log) w' := by
  induction log generalizing w with
  | nil =>
    cases h
    exact .refl
  | cons e log ih =>
    unfold System.play at h
    split_ifs at h with hc
    obtain ⟨hnow, htime, hcaller⟩ := hc
    obtain ⟨w₁, hx, h⟩ := bind_eq_ok.1 h
    have hone : S.Traced w
        [(advance w e.time, ⟨S.now (advance w e.time), e.sender, e.call⟩)] w₁ :=
      .call (.elsewhere .refl (hadvance w e.time hnow)) hcaller hx
    rw [htime] at hone
    unfold traceOf
    rw [hx]
    exact hone.trans (ih h)

end System

end Evm
