import Aura.Evm.Loop
import Aura.Evm.Erc20

/-!
# AuraMath

The arithmetic library of the contracts. `AuraMath` works on `uint256`; the sized
variants only differ in the width at which an addition overflows. The casts revert when
the value does not fit, unlike the explicit conversions `uint32(…)` that some of the
contracts use, which are `Evm.trunc`.
-/

namespace Aura

open Evm

/-- An account. -/
def Address : Type :=
  Fin (2 ^ 160)

instance : DecidableEq Address :=
  inferInstanceAs (DecidableEq (Fin (2 ^ 160)))

-- irreducible : no proof should ever list the accounts
@[irreducible] instance : Fintype Address :=
  inferInstanceAs (Fintype (Fin (2 ^ 160)))

instance (n : ℕ) : OfNat Address n :=
  inferInstanceAs (OfNat (Fin (2 ^ 160)) n)

instance : Zero Address :=
  ⟨0⟩

namespace AuraMath

/-- `AuraMath.min`. -/
def min (a b : ℕ) : ℕ :=
  if a < b then a else b

def add (a b : ℕ) : Tx ℕ :=
  uadd 256 a b

def sub (a b : ℕ) : Tx ℕ :=
  usub a b

def mul (a b : ℕ) : Tx ℕ :=
  umul 256 a b

def div (a b : ℕ) : Tx ℕ :=
  udiv a b

/-- `AuraMath.average` : the halves are added first, so that nothing overflows. -/
def average (a b : ℕ) : ℕ :=
  a / 2 + b / 2 + (a % 2 + b % 2) / 2

def to224 (a : ℕ) : Tx ℕ :=
  ucast 224 "AuraMath: uint224 Overflow" a

def to128 (a : ℕ) : Tx ℕ :=
  ucast 128 "AuraMath: uint128 Overflow" a

def to112 (a : ℕ) : Tx ℕ :=
  ucast 112 "AuraMath: uint112 Overflow" a

def to96 (a : ℕ) : Tx ℕ :=
  ucast 96 "AuraMath: uint96 Overflow" a

def to32 (a : ℕ) : Tx ℕ :=
  ucast 32 "AuraMath: uint32 Overflow" a

theorem min_eq (a b : ℕ) : AuraMath.min a b = Nat.min a b := by
  unfold AuraMath.min
  split_ifs with h
  · exact (Nat.min_eq_left h.le).symm
  · exact (Nat.min_eq_right (not_lt.1 h)).symm

theorem average_eq (a b : ℕ) : average a b = (a + b) / 2 := by
  unfold average
  omega

end AuraMath

/-- `AuraMath112.add`. -/
def AuraMath112.add (a b : ℕ) : Tx ℕ :=
  uadd 112 a b

/-- `AuraMath112.sub`. -/
def AuraMath112.sub (a b : ℕ) : Tx ℕ :=
  usub a b

/-- `AuraMath224.add`. -/
def AuraMath224.add (a b : ℕ) : Tx ℕ :=
  uadd 224 a b

/-- `AuraMath32.sub`. -/
def AuraMath32.sub (a b : ℕ) : Tx ℕ :=
  usub a b

end Aura
