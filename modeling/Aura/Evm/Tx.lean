import Mathlib.Tactic.Common
import Mathlib.Tactic.Ring
import Mathlib.Tactic.Linarith
import Mathlib.Data.Nat.Basic

/-!
# Transactions that may revert

A contract call either returns or reverts, and a revert undoes every write. `Tx α` is
the result of such a call. Machine words are natural numbers; every operation that
Solidity 0.8 checks is checked here at its width, with `uadd`, `usub`, `umul`, `udiv`
and `ucast`.

Solidity reports arithmetic overflow and underflow with the one code `Panic(0x11)`.
They are kept apart here (`Revert.overflow`, `Revert.underflow`), so that "no
subtraction underflows" can be said of a call.

The inversion lemmas `bind_eq_ok`, `require_eq_ok`, `uadd_eq_ok` and so on take a
successful call apart step by step.
-/

namespace Evm

/-- Why a call reverts. -/
inductive Revert where
  /-- `require(…, msg)` or `revert(msg)`. -/
  | reason (msg : String)
  /-- `Panic(0x11)` of an addition or a multiplication. -/
  | overflow
  /-- `Panic(0x11)` of a subtraction. -/
  | underflow
  /-- `Panic(0x12)`. -/
  | divByZero
  /-- `Panic(0x32)`. -/
  | outOfBounds
  /-- `Panic(0x21)` of a conversion to an enum. -/
  | badEnum
  /-- `Panic(0x41)` of an allocation. -/
  | outOfMemory
  /-- A loop that does not end. -/
  | outOfGas
  deriving DecidableEq, Repr

/-- The result of a call. -/
abbrev Tx (α : Type) := Except Revert α

variable {α β : Type}

instance [DecidableEq α] : DecidableEq (Tx α)
  | .ok a, .ok b => if h : a = b then isTrue (h ▸ rfl) else isFalse fun e => h (by cases e; rfl)
  | .error a, .error b =>
    if h : a = b then isTrue (h ▸ rfl) else isFalse fun e => h (by cases e; rfl)
  | .ok _, .error _ => isFalse nofun
  | .error _, .ok _ => isFalse nofun

/-- Whether the call returns. -/
def Tx.returns (x : Tx α) : Bool :=
  match x with
  | .ok _ => true
  | .error _ => false

theorem Tx.exists_ok {x : Tx α} (h : x.returns = true) : ∃ a, x = .ok a := by
  cases x with
  | ok a => exact ⟨a, rfl⟩
  | error e => simp [Tx.returns] at h

@[simp] theorem ok_bind (a : α) (f : α → Tx β) : ((.ok a : Tx α) >>= f) = f a :=
  rfl

@[simp] theorem error_bind (e : Revert) (f : α → Tx β) : ((.error e : Tx α) >>= f) = .error e :=
  rfl

@[simp] theorem pure_eq_ok (a b : α) : (pure a : Tx α) = .ok b ↔ a = b := by
  show (Except.ok a : Tx α) = .ok b ↔ a = b
  simp

/-- A sequence of two calls returns when both do. -/
theorem bind_eq_ok {x : Tx α} {f : α → Tx β} {b : β} :
    (x >>= f) = .ok b ↔ ∃ a, x = .ok a ∧ f a = .ok b := by
  cases x <;> simp

/-- A sequence of two calls fails in the first or in the second. -/
theorem bind_eq_error {x : Tx α} {f : α → Tx β} {e : Revert} :
    (x >>= f) = .error e ↔ x = .error e ∨ ∃ a, x = .ok a ∧ f a = .error e := by
  cases x <;> simp

theorem Tx.map_bind (f : β → γ) (x : Tx α) (g : α → Tx β) :
    (x >>= g).map f = x >>= fun a => (g a).map f := by
  cases x <;> rfl

theorem Tx.map_eq_ok {f : α → β} {x : Tx α} {b : β} :
    x.map f = .ok b ↔ ∃ a, x = .ok a ∧ f a = b := by
  cases x with
  | ok a =>
    exact ⟨fun h => ⟨a, rfl, Except.ok.inj h⟩, fun ⟨_, ha, hb⟩ => ha ▸ congrArg Except.ok hb⟩
  | error e => exact ⟨nofun, nofun⟩

theorem Tx.eq_error_of_map {f : α → β} {x : Tx α} {e : Revert} (h : x.map f = .error e) :
    x = .error e := by
  cases x with
  | ok a => cases h
  | error e' =>
    cases h
    rfl

/-- Computations with the same values in some respect have the same failures. -/
theorem Tx.error_iff_of_map {γ : Type} {f : α → γ} {g : β → γ} {x : Tx α} {y : Tx β}
    (h : x.map f = y.map g) (e : Revert) : x = .error e ↔ y = .error e := by
  constructor
  · rintro rfl
    exact Tx.eq_error_of_map h.symm
  · rintro rfl
    exact Tx.eq_error_of_map h

/-- `require(p, msg)`. -/
def require (p : Prop) [Decidable p] (msg : String) : Tx Unit :=
  if p then .ok () else .error (.reason msg)

theorem require_eq_ok {p : Prop} [Decidable p] {msg : String} {u : Unit} :
    require p msg = .ok u ↔ p := by
  unfold require
  split_ifs with h <;> simp [h]

@[simp] theorem require_of {p : Prop} [Decidable p] (h : p) (msg : String) :
    require p msg = .ok () :=
  if_pos h

theorem require_bind_eq_ok {p : Prop} [Decidable p] {msg : String} {f : Unit → Tx β} {b : β} :
    (require p msg >>= f) = .ok b ↔ p ∧ f () = .ok b := by
  rw [bind_eq_ok]
  constructor
  · rintro ⟨u, hp, h⟩
    exact ⟨require_eq_ok.1 hp, h⟩
  · rintro ⟨hp, h⟩
    exact ⟨(), require_of hp msg, h⟩

/-! ## Checked arithmetic -/

/-- `a + b` at `w` bits. -/
def uadd (w a b : ℕ) : Tx ℕ :=
  if a + b < 2 ^ w then .ok (a + b) else .error .overflow

/-- `a - b`. -/
def usub (a b : ℕ) : Tx ℕ :=
  if b ≤ a then .ok (a - b) else .error .underflow

/-- `a * b` at `w` bits. -/
def umul (w a b : ℕ) : Tx ℕ :=
  if a * b < 2 ^ w then .ok (a * b) else .error .overflow

/-- `a / b`. -/
def udiv (a b : ℕ) : Tx ℕ :=
  if b = 0 then .error .divByZero else .ok (a / b)

/-- A cast to `w` bits that reverts with `msg` when the value does not fit. -/
def ucast (w : ℕ) (msg : String) (a : ℕ) : Tx ℕ :=
  if a < 2 ^ w then .ok a else .error (.reason msg)

/-- Solidity's explicit conversion to `w` bits : it drops the high bits. -/
def trunc (w a : ℕ) : ℕ :=
  a % 2 ^ w

theorem uadd_eq_ok {w a b c : ℕ} : uadd w a b = .ok c ↔ a + b < 2 ^ w ∧ c = a + b := by
  unfold uadd
  split_ifs with h <;> simp [h, eq_comm]

theorem usub_eq_ok {a b c : ℕ} : usub a b = .ok c ↔ b ≤ a ∧ c = a - b := by
  unfold usub
  split_ifs with h <;> simp [h, eq_comm]

theorem umul_eq_ok {w a b c : ℕ} : umul w a b = .ok c ↔ a * b < 2 ^ w ∧ c = a * b := by
  unfold umul
  split_ifs with h <;> simp [h, eq_comm]

theorem udiv_eq_ok {a b c : ℕ} : udiv a b = .ok c ↔ b ≠ 0 ∧ c = a / b := by
  unfold udiv
  split_ifs with h <;> simp [h, eq_comm]

theorem ucast_eq_ok {w a c : ℕ} {msg : String} : ucast w msg a = .ok c ↔ a < 2 ^ w ∧ c = a := by
  unfold ucast
  split_ifs with h <;> simp [h, eq_comm]

theorem uadd_of {w a b : ℕ} (h : a + b < 2 ^ w) : uadd w a b = .ok (a + b) :=
  if_pos h

theorem usub_of {a b : ℕ} (h : b ≤ a) : usub a b = .ok (a - b) :=
  if_pos h

theorem usub_of_lt {a b : ℕ} (h : a < b) : usub a b = .error .underflow :=
  if_neg (not_le.2 h)

/-- Taking away what was added. -/
theorem usub_add_right (a b : ℕ) : usub (a + b) b = .ok a := by
  rw [usub_of (Nat.le_add_left b a), Nat.add_sub_cancel]

theorem umul_of {w a b : ℕ} (h : a * b < 2 ^ w) : umul w a b = .ok (a * b) :=
  if_pos h

theorem udiv_of {a b : ℕ} (h : b ≠ 0) : udiv a b = .ok (a / b) :=
  if_neg h

theorem ucast_of {w a : ℕ} {msg : String} (h : a < 2 ^ w) : ucast w msg a = .ok a :=
  if_pos h

/-- Only a subtraction that goes below zero underflows. -/
theorem uadd_ne_underflow (w a b : ℕ) : uadd w a b ≠ .error .underflow := by
  unfold uadd
  split_ifs <;> simp

theorem umul_ne_underflow (w a b : ℕ) : umul w a b ≠ .error .underflow := by
  unfold umul
  split_ifs <;> simp

theorem udiv_ne_underflow (a b : ℕ) : udiv a b ≠ .error .underflow := by
  unfold udiv
  split_ifs <;> simp

theorem ok_ne_underflow (a : α) : (.ok a : Tx α) ≠ .error .underflow :=
  nofun

/-- A sequence of two calls underflows in one of them. -/
theorem bind_ne_underflow {x : Tx α} {f : α → Tx β} (hx : x ≠ .error .underflow)
    (hf : ∀ a, x = .ok a → f a ≠ .error .underflow) : (x >>= f) ≠ .error .underflow := by
  rw [Ne, bind_eq_error, not_or, not_exists]
  exact ⟨hx, fun a h => hf a h.1 h.2⟩

theorem ucast_ne_underflow (w a : ℕ) (msg : String) : ucast w msg a ≠ .error .underflow := by
  unfold ucast
  split_ifs <;> simp

theorem require_ne_underflow {p : Prop} [Decidable p] (msg : String) :
    require p msg ≠ .error .underflow := by
  unfold require
  split_ifs <;> simp

theorem trunc_of_lt {w a : ℕ} (h : a < 2 ^ w) : trunc w a = a :=
  Nat.mod_eq_of_lt h

theorem trunc_lt (w a : ℕ) : trunc w a < 2 ^ w :=
  Nat.mod_lt _ (by positivity)

/-! ## No panic of arithmetic -/

/-- The panics of arithmetic. -/
def Revert.IsArithmetic : Revert → Prop
  | .overflow | .underflow | .divByZero => True
  | _ => False

/-- The call does not revert because of arithmetic. -/
def NoPanic (x : Tx α) : Prop :=
  ∀ e, x = .error e → ¬e.IsArithmetic

theorem noPanic_ok (a : α) : NoPanic (.ok a : Tx α) :=
  nofun

theorem noPanic_reason (msg : String) : NoPanic (.error (.reason msg) : Tx α) := by
  rintro e h
  cases h
  exact id

/-- A sequence of two calls panics in one of them. -/
theorem NoPanic.bind {x : Tx α} {f : α → Tx β} (hx : NoPanic x)
    (hf : ∀ a, x = .ok a → NoPanic (f a)) : NoPanic (x >>= f) := by
  intro e h
  rcases bind_eq_error.1 h with h | ⟨a, ha, h⟩
  · exact hx e h
  · exact hf a ha e h

theorem noPanic_require {p : Prop} [Decidable p] (msg : String) : NoPanic (require p msg) := by
  unfold require
  split_ifs
  · exact noPanic_ok ()
  · exact noPanic_reason msg

/-- The last entry of an array, `xs[xs.length - 1]` : an empty array underflows. -/
def last (xs : List α) : Tx α :=
  match xs.getLast? with
  | some x => .ok x
  | none => .error .underflow

theorem last_eq_ok {xs : List α} {x : α} : last xs = .ok x ↔ xs.getLast? = some x := by
  unfold last
  cases xs.getLast? <;> simp

@[simp] theorem last_append_singleton (xs : List α) (x : α) : last (xs ++ [x]) = .ok x := by
  simp [last]

/-- `xs[i]`. -/
def index (xs : List α) (i : ℕ) : Tx α :=
  match xs[i]? with
  | some x => .ok x
  | none => .error .outOfBounds

theorem index_eq_ok {xs : List α} {i : ℕ} {x : α} : index xs i = .ok x ↔ xs[i]? = some x := by
  unfold index
  cases xs[i]? <;> simp

/-- `xs[i] = x`. -/
def assign (xs : List α) (i : ℕ) (x : α) : Tx (List α) :=
  if i < xs.length then .ok (xs.set i x) else .error .outOfBounds

theorem assign_of {xs : List α} {i : ℕ} (h : i < xs.length) (x : α) :
    assign xs i x = .ok (xs.set i x) :=
  if_pos h

/-! ## Reasons that cannot come up -/

section Avoids

variable {x : Tx α} {msg : String}

/-- The call does not fail with the reason `msg`. -/
def Avoids (msg : String) (x : Tx α) : Prop :=
  x ≠ .error (.reason msg)

theorem avoids_ok (a : α) : Avoids msg (.ok a : Tx α) :=
  nofun

/-- A sequence of two calls fails with no reason that neither of them fails with. -/
theorem Avoids.bind {f : α → Tx β} (hx : Avoids msg x) (hf : ∀ a, x = .ok a → Avoids msg (f a)) :
    Avoids msg (x >>= f) := by
  intro h
  rcases bind_eq_error.1 h with h | ⟨a, ha, h⟩
  · exact hx h
  · exact hf a ha h

/-- A sequence whose first call returns a value that does not matter. -/
theorem Avoids.then {f : α → Tx β} (hx : Avoids msg x) (hf : ∀ a, Avoids msg (f a)) :
    Avoids msg (x >>= f) :=
  hx.bind fun a _ => hf a

theorem avoids_require {p : Prop} [Decidable p] {msg' : String} (h : msg' ≠ msg) :
    Avoids msg (require p msg') := by
  unfold Avoids require
  split_ifs <;> simp [h]

theorem avoids_ucast {w a : ℕ} {msg' : String} (h : msg' ≠ msg) : Avoids msg (ucast w msg' a) := by
  unfold Avoids ucast
  split_ifs <;> simp [h]

theorem avoids_uadd (w a b : ℕ) : Avoids msg (uadd w a b) := by
  unfold Avoids uadd
  split_ifs <;> simp

theorem avoids_usub (a b : ℕ) : Avoids msg (usub a b) := by
  unfold Avoids usub
  split_ifs <;> simp

theorem avoids_umul (w a b : ℕ) : Avoids msg (umul w a b) := by
  unfold Avoids umul
  split_ifs <;> simp

theorem avoids_udiv (a b : ℕ) : Avoids msg (udiv a b) := by
  unfold Avoids udiv
  split_ifs <;> simp

theorem avoids_last (xs : List α) : Avoids msg (last xs) := by
  unfold Avoids last
  cases xs.getLast? <;> simp

theorem avoids_foldlM {f : β → α → Tx β} (h : ∀ b a, Avoids msg (f b a)) :
    ∀ (xs : List α) (b : β), Avoids msg (xs.foldlM f b)
  | [], b => avoids_ok b
  | a :: xs, b => (h b a).then (avoids_foldlM h xs)

end Avoids

end Evm
