import Mathlib.Order.Monotone.Basic
import Aura.AuraToken

/-!
# AuraToken : splitting a mint

A `mint` reads the rate once, so a large amount is minted at the rate of its first unit. As
the rate only falls and every division rounds down, nobody gains by minting in parts, with
the minter minting in between or not, or by minting later (`mint_split_le`).

The product of the amount and the rate has to fit a word, and the product for the parts can
when the one for the sum does not (`mint_sum_overflows`).
-/

open Evm

namespace Aura.AuraToken

/-! ## Capped schedules -/

section Capped

variable {rate : ℕ → ℕ} {d cap : ℕ}

/-- What is released for `n` at the rate after `e`, up to the cap. -/
def capped (rate : ℕ → ℕ) (d cap e n : ℕ) : ℕ :=
  min (n * rate e / d) (cap - e)

/-- Later is less. -/
theorem capped_anti (hr : Antitone rate) {e e' : ℕ} (h : e ≤ e') (n : ℕ) :
    capped rate d cap e' n ≤ capped rate d cap e n :=
  min_le_min (Nat.div_le_div_right (Nat.mul_le_mul_left n (hr h))) (Nat.sub_le_sub_left h cap)

/-- In parts is no more than at once. -/
theorem capped_add_le (hr : Antitone rate) (e a b : ℕ) :
    capped rate d cap e a + capped rate d cap (e + capped rate d cap e a) b ≤
      capped rate d cap e (a + b) := by
  set k := capped rate d cap e a with hk
  have hcap : k ≤ cap - e := min_le_right _ _
  refine le_min ?_ ?_
  · calc k + capped rate d cap (e + k) b
        ≤ a * rate e / d + b * rate (e + k) / d :=
          Nat.add_le_add (min_le_left _ _) (min_le_left _ _)
      _ ≤ a * rate e / d + b * rate e / d :=
          Nat.add_le_add_left
            (Nat.div_le_div_right (Nat.mul_le_mul_left b (hr (Nat.le_add_right e k)))) _
      _ ≤ (a * rate e + b * rate e) / d := Nat.div_add_div_le_add_div
      _ = (a + b) * rate e / d := by rw [add_mul]
  · have hrest : capped rate d cap (e + k) b ≤ cap - (e + k) := min_le_right _ _
    omega

end Capped

/-! ## The schedule of the token -/

/-- The parts of 500 that are created for a unit after the emissions `e`. -/
def reduction (e : ℕ) : ℕ :=
  (totalCliffs - e / reductionPerCliff) * 5 / 2 + 700

theorem reduction_anti : Antitone reduction := fun _ _ h =>
  Nat.add_le_add_right (Nat.div_le_div_right (Nat.mul_le_mul_right 5
    (Nat.sub_le_sub_left (Nat.div_le_div_right h) _))) 700

/-- What a mint creates after the emissions `e`, if nothing overflows. -/
def creates : ℕ → ℕ → ℕ :=
  capped reduction totalCliffs emissionsMaxSupply

/-- Before the last cliff the cap clips what the rate gives, and after it nothing is left. -/
theorem schedule_eq_creates {e n k : ℕ} (h : schedule e n = .ok k) : k = creates e n := by
  unfold schedule at h
  split_ifs at h with hc
  · unfold scheduled at h
    obtain ⟨x, hx, h⟩ := bind_eq_ok.1 h
    obtain ⟨-, rfl⟩ := usub_eq_ok.1 hx
    obtain ⟨x, hx, h⟩ := bind_eq_ok.1 h
    obtain ⟨-, rfl⟩ := umul_eq_ok.1 hx
    obtain ⟨x, hx, h⟩ := bind_eq_ok.1 h
    obtain ⟨-, rfl⟩ := udiv_eq_ok.1 hx
    obtain ⟨x, hx, h⟩ := bind_eq_ok.1 h
    obtain ⟨-, rfl⟩ := uadd_eq_ok.1 hx
    obtain ⟨x, hx, h⟩ := bind_eq_ok.1 h
    obtain ⟨-, rfl⟩ := umul_eq_ok.1 hx
    obtain ⟨x, hx, h⟩ := bind_eq_ok.1 h
    obtain ⟨-, rfl⟩ := udiv_eq_ok.1 hx
    obtain ⟨x, hx, h⟩ := bind_eq_ok.1 h
    obtain ⟨-, rfl⟩ := usub_eq_ok.1 hx
    cases h
    unfold creates capped reduction
    split_ifs with hlt
    · exact (Nat.min_eq_right hlt.le).symm
    · exact (Nat.min_eq_left (Nat.le_of_not_lt hlt)).symm
  · cases h
    have hcap : emissionsMaxSupply ≤ e := by
      have hle := (Nat.le_div_iff_mul_le (by decide)).1 (Nat.le_of_not_lt hc)
      exact le_trans (by decide) hle
    exact (Nat.eq_zero_of_le_zero ((min_le_right _ _).trans (Nat.sub_eq_zero_of_le hcap).le)).symm

/-! ## Mints -/

/-- What a call of the token creates : nothing if it reverts. -/
def created (s : AuraToken) : Tx AuraToken → ℕ
  | .ok s' => s'.totalSupply - s.totalSupply
  | .error _ => 0

/-- The minter mints any number of times. -/
inductive MinterMints (s : AuraToken) : AuraToken → Prop
  | refl : MinterMints s s
  | tail {s₁ s₂ : AuraToken} {sender a : Address} {n : ℕ} : MinterMints s s₁ → sender ≠ 0 →
      s₁.minterMint sender a n = .ok s₂ → MinterMints s s₂

variable {s s₁ s₂ s' : AuraToken} {log newer : List Emission} {a b n : ℕ} {dst : Address}

theorem Emitted.minterMints (h : Emitted log s) (hm : MinterMints s s') : Emitted log s' := by
  induction hm with
  | refl => exact h
  | tail _ hsender hx ih => exact ih.minterMint hsender hx

/-- What a mint of the operator creates, and what has been emitted after it. -/
theorem Emitted.operator_mint (h : Emitted log s) (hx : s.mint s.operator dst n = .ok s') :
    created s (.ok s') = creates (emissions log) n ∧
      Emitted (⟨n, creates (emissions log) n⟩ :: log) s' := by
  obtain ⟨-, -, k, hk, hsup⟩ := h.mint_eq_ok hx
  have hcreated : s'.totalSupply - s.totalSupply = creates (emissions log) n := by
    rw [hsup, Nat.add_sub_cancel_left, schedule_eq_creates hk]
  have hrec : s.record s' s.operator (.mint dst n) = [⟨n, creates (emissions log) n⟩] := by
    unfold record
    dsimp only
    rw [if_pos rfl, hcreated]
  refine ⟨hcreated, ?_⟩
  have hnext := h.mint hx
  rw [hrec] at hnext
  exact hnext

/-- A mint for `a` and one for `b` create no more than one for both. -/
theorem Emitted.split_le {dst₁ dst₂ : Address} {s₃ : AuraToken} (h : Emitted log s)
    (h₁ : s.mint s.operator dst₁ a = .ok s₁) (hm : MinterMints s₁ s₂)
    (h₂ : s₂.mint s₂.operator dst₂ b = .ok s₃)
    (hx : s.mint s.operator dst (a + b) = .ok s') :
    created s (.ok s₁) + created s₂ (.ok s₃) ≤ created s (.ok s') := by
  obtain ⟨hfirst, he₁⟩ := h.operator_mint h₁
  obtain ⟨hsecond, -⟩ := (he₁.minterMints hm).operator_mint h₂
  rw [emissions_cons, Nat.add_comm] at hsecond
  rw [hfirst, hsecond, (h.operator_mint hx).1]
  exact capped_add_le reduction_anti _ a b

/-- The cap is reached : a mint of the operator does nothing. -/
theorem Emitted.mint_at_cap (h : Emitted log s) (hcap : emissions log = emissionsMaxSupply)
    (dst : Address) (n : ℕ) : s.mint s.operator dst n = .ok s := by
  have h0 : s.totalSupply ≠ 0 := by
    intro h0
    rw [(h.before h0).2] at hcap
    exact absurd hcap (by decide)
  rw [h.mint_eq h0, hcap, if_neg (by decide)]

/-- Whenever the single mint returns, two mints for the parts create no more than it, with any
mints of the minter in between ; a mint after more emissions that returns creates no more
than one that returns after fewer ; and once the emissions reach the cap every later mint of
the operator does nothing. -/
theorem mint_split_le {log : List Emission} {s : AuraToken} (h : Run log s) :
    (∀ dst₁ dst₂ dst a b s₁ s₂ s₃ s', s.mint s.operator dst₁ a = .ok s₁ → MinterMints s₁ s₂ →
      s₂.mint s₂.operator dst₂ b = .ok s₃ → s.mint s.operator dst (a + b) = .ok s' →
        created s (.ok s₁) + created s₂ (.ok s₃) ≤ created s (.ok s')) ∧
    (∀ log₂ s₂, Run log₂ s₂ → emissions log ≤ emissions log₂ →
      ∀ dst₁ dst₂ n s₁ s₃, s.mint s.operator dst₁ n = .ok s₁ →
        s₂.mint s₂.operator dst₂ n = .ok s₃ → created s₂ (.ok s₃) ≤ created s (.ok s₁)) ∧
    (emissions log = emissionsMaxSupply → ∀ newer s', Run (newer ++ log) s' →
      ∀ dst n, s'.mint s'.operator dst n = .ok s') := by
  have he := h.emitted
  refine ⟨fun dst₁ dst₂ dst a b s₁ s₂ s₃ s' h₁ hm h₂ hx => he.split_le h₁ hm h₂ hx,
    fun log₂ s₂ hrun₂ hle dst₁ dst₂ n s₁ s₃ h₁ h₂ => ?_, fun hcap newer s' hrun dst n => ?_⟩
  · rw [(he.operator_mint h₁).1, (hrun₂.emitted.operator_mint h₂).1]
    exact capped_anti reduction_anti hle n
  · refine hrun.emitted.mint_at_cap (Nat.le_antisymm hrun.emitted.cap ?_) dst n
    rw [← hcap]
    unfold emissions
    rw [List.map_append, List.sum_append]
    exact Nat.le_add_left _ _

/-- Two mints of 1000, the minter minting in between. -/
theorem mint_split_le_run : ∃ s s₁ s₂ s₃ s' : AuraToken,
    s.mint s.operator 1 1000 = .ok s₁ ∧ s₂.mint s₂.operator 1 1000 = .ok s₃ ∧
      s.mint s.operator 1 2000 = .ok s' ∧
        created s (.ok s₁) + created s₂ (.ok s₃) ≤ created s (.ok s') := by
  have hrun : Run (initial.after [(101, .init 1 103)]).1 (initial.after [(101, .init 1 103)]).2 :=
    .after initial_deployed (by decide +kernel)
  generalize hs : (initial.after [(101, .init 1 103)]).2 = s at hrun
  have hall : (do
      let s₁ ← s.mint s.operator 1 1000
      let s₂ ← s₁.minterMint 103 2 7
      s₂.mint s₂.operator 1 1000).returns = true := by
    rw [← hs]
    decide +kernel
  have hsum : (s.mint s.operator 1 2000).returns = true := by
    rw [← hs]
    decide +kernel
  obtain ⟨s₃, hall⟩ := Tx.exists_ok hall
  obtain ⟨s', hx⟩ := Tx.exists_ok hsum
  obtain ⟨s₁, h₁, hall⟩ := bind_eq_ok.1 hall
  obtain ⟨s₂, hm, h₂⟩ := bind_eq_ok.1 hall
  exact ⟨s, s₁, s₂, s₃, s', h₁, h₂, hx,
    (mint_split_le hrun).1 1 1 1 1000 1000 s₁ s₂ s₃ s' h₁ (.tail .refl (by decide) hm) h₂ hx⟩

/-- The product of the sum and the rate overflows, and those of the parts do not. -/
theorem mint_sum_overflows : ¬∀ {log : List Emission} {s : AuraToken}, Run log s →
    s.totalSupply ≠ 0 → ∀ dst a b s₁ s₂, s.mint s.operator dst a = .ok s₁ →
      s₁.mint s₁.operator dst b = .ok s₂ →
        created s (.ok s₁) + created s₁ (.ok s₂) ≤ created s (s.mint s.operator dst (a + b)) := by
  intro h
  have hrun : Run (initial.after [(101, .init 1 103)]).1 (initial.after [(101, .init 1 103)]).2 :=
    .after initial_deployed (by decide +kernel)
  have h0 : (initial.after [(101, .init 1 103)]).2.totalSupply ≠ 0 := by decide +kernel
  generalize hs : (initial.after [(101, .init 1 103)]).2 = s at hrun h0
  have hparts : (do
      let s₁ ← s.mint s.operator 1 (2 ^ 245)
      s₁.mint s₁.operator 1 (2 ^ 245)).returns = true := by
    rw [← hs]
    decide +kernel
  have hmost : created s (s.mint s.operator 1 (2 ^ 245)) = emissionsMaxSupply := by
    rw [← hs]
    decide +kernel
  have hnothing : created s (s.mint s.operator 1 (2 ^ 245 + 2 ^ 245)) = 0 := by
    rw [← hs]
    decide +kernel
  obtain ⟨s₂, hparts⟩ := Tx.exists_ok hparts
  obtain ⟨s₁, h₁, h₂⟩ := bind_eq_ok.1 hparts
  have hle := h hrun h0 1 _ _ s₁ s₂ h₁ h₂
  rw [h₁] at hmost
  rw [hmost, hnothing] at hle
  exact absurd ((Nat.le_add_right _ _).trans hle) (by decide)

end Aura.AuraToken
