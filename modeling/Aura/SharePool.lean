import Mathlib.Tactic.Ring
import Mathlib.Tactic.Linarith
import Mathlib.Data.Nat.Basic
import Mathlib.Algebra.Order.Floor.Div

/-!
# Share pools

A pool issues `S` shares for `T` assets. Assets come in at `⌊a * S / T⌋` shares and go out
at `⌈b * S / T⌉` shares, so the price `T / S` of a share never falls. A holder who counts
its assets exactly, and not the shares they are kept as, counts too much by at most
`rounding` for every deposit and every withdrawal of its own.

`Worth S T s X E` : a holder of `s` shares that counts `X` assets has lost at most `E` to
the rounding. It survives every operation of the pool, `E` growing only by the roundings of
the holder's own operations.
-/

namespace SharePool

/-- The shares for `a` assets, rounded down. -/
def floorShares (S T a : ℕ) : ℕ :=
  a * S / T

/-- The shares for `a` assets, rounded up. -/
def ceilShares (S T a : ℕ) : ℕ :=
  if a * S % T = 0 then a * S / T else a * S / T + 1

/-- What one operation on `a` assets can lose : nothing when `a` assets are a whole number
of shares, else at most the price of one share. -/
def rounding (S T a : ℕ) : ℕ :=
  if a * S % T = 0 then 0 else (T + (S - 1)) / S

/-- What a deposit of `a` assets loses, rounded up : with it its shares are worth `a`. -/
def depositLoss (S T a : ℕ) : ℕ :=
  (a * S % T) ⌈/⌉ (S + floorShares S T a)

/-- The price of a share does not fall from `T / S` to `T' / S'`. -/
def PriceLe (S T S' T' : ℕ) : Prop :=
  T * S' ≤ T' * S

/-- The `s` shares of the holder are worth the `X` assets it counts, but for `E`. -/
structure Worth (S T s X E : ℕ) : Prop where
  le : X * S ≤ s * T + E * S
  empty : S = 0 → X ≤ E

variable {S T S' T' s s' X E a b : ℕ}

/-! ## Rounding -/

theorem le_succ_div_mul (n : ℕ) {d : ℕ} (hd : 0 < d) : n ≤ (n / d + 1) * d := by
  rw [mul_comm]
  exact (Nat.lt_mul_div_succ n hd).le

theorem floorShares_mul_le (S T a : ℕ) : floorShares S T a * T ≤ a * S :=
  Nat.div_mul_le_self _ _

/-- The price of a share, rounded up, pays for a share. -/
theorem le_ceilPrice_mul (T : ℕ) (hS : 0 < S) : T ≤ (T + (S - 1)) / S * S := by
  have := Nat.lt_mul_div_succ (T + (S - 1)) hS
  rw [Nat.mul_add, mul_one, Nat.mul_comm] at this
  omega

/-- What a deposit rounds away. -/
theorem le_floorShares_add_rounding (hS : 0 < S) (hT : 0 < T) :
    a * S ≤ floorShares S T a * T + rounding S T a * S := by
  unfold floorShares rounding
  split_ifs with h
  · rw [Nat.div_mul_cancel (Nat.dvd_of_mod_eq_zero h)]
    exact Nat.le_add_right _ _
  · have hlt := le_succ_div_mul (a * S) hT
    have hprice := le_ceilPrice_mul T hS
    rw [Nat.add_mul, one_mul] at hlt
    omega

/-- What a deposit loses, counted at the price after it. -/
theorem le_floorShares_add_depositLoss (hS : 0 < S) (T a : ℕ) :
    a * S ≤ floorShares S T a * T + depositLoss S T a * (S + floorShares S T a) := by
  have hpos : 0 < S + floorShares S T a := by omega
  have hloss : a * S % T ≤ (S + floorShares S T a) * depositLoss S T a :=
    (ceilDiv_le_iff_le_mul hpos).1 le_rfl
  have hsum : floorShares S T a * T + a * S % T = a * S := Nat.div_add_mod' _ _
  rw [Nat.mul_comm (S + _)] at hloss
  omega

/-- A deposit loses at most one asset. -/
theorem depositLoss_le_one_iff (hS : 0 < S) :
    depositLoss S T a ≤ 1 ↔ a * S ≤ floorShares S T a * T + (S + floorShares S T a) := by
  have hpos : 0 < S + floorShares S T a := by omega
  have hsum : floorShares S T a * T + a * S % T = a * S := Nat.div_add_mod' _ _
  unfold depositLoss
  rw [ceilDiv_le_iff_le_mul hpos, mul_one]
  omega

/-- A deposit loses at most one asset if and only if its shares are worth all the others. -/
theorem depositLoss_le_one_iff_worth (hS : 0 < S) :
    depositLoss S T a ≤ 1 ↔
      (a - 1) * (S + floorShares S T a) ≤ floorShares S T a * (T + a) := by
  rw [depositLoss_le_one_iff hS]
  rcases Nat.eq_zero_or_pos a with rfl | ha
  · simp
  · obtain ⟨b, rfl⟩ := Nat.exists_eq_add_of_le' ha
    rw [Nat.add_sub_cancel]
    constructor <;> intro h <;> linarith

/-- The same without the shares that the deposit buys. -/
theorem depositLoss_le_one_iff_mod (hS : 0 < S) (hT : 0 < T) :
    depositLoss S T a ≤ 1 ↔ (T + 1) * (a * S % T) ≤ S * (T + a) := by
  have hsum : floorShares S T a * T + a * S % T = a * S := Nat.div_add_mod' _ _
  have hmod : depositLoss S T a ≤ 1 ↔ a * S % T ≤ S + floorShares S T a := by
    rw [depositLoss_le_one_iff hS]
    omega
  rw [hmod]
  constructor
  · intro h
    calc (T + 1) * (a * S % T) = T * (a * S % T) + a * S % T := Nat.succ_mul _ _
      _ ≤ T * (S + floorShares S T a) + a * S % T :=
        Nat.add_le_add_right (Nat.mul_le_mul_left T h) _
      _ = S * T + (floorShares S T a * T + a * S % T) := by ring
      _ = S * (T + a) := by rw [hsum]; ring
  · intro h
    refine Nat.le_of_mul_le_mul_left ?_ hT
    linarith

/-- What a withdrawal rounds away. -/
theorem ceilShares_le_add_rounding (hS : 0 < S) :
    ceilShares S T a * T ≤ a * S + rounding S T a * S := by
  unfold ceilShares rounding
  split_ifs with h
  · rw [Nat.div_mul_cancel (Nat.dvd_of_mod_eq_zero h)]
    exact Nat.le_add_right _ _
  · have hle := Nat.div_mul_le_self (a * S) T
    have hprice := le_ceilPrice_mul T hS
    rw [add_mul, one_mul]
    omega

/-- The shares for some assets, rounded up, are worth them. -/
theorem le_ceilShares_mul (S a : ℕ) (hT : 0 < T) : a * S ≤ ceilShares S T a * T := by
  unfold ceilShares
  split_ifs with h
  · rw [Nat.div_mul_cancel (Nat.dvd_of_mod_eq_zero h)]
  · exact le_succ_div_mul (a * S) hT

/-- Rounding up adds less than a share. -/
theorem ceilShares_mul_lt (S a : ℕ) (hT : 0 < T) : ceilShares S T a * T < a * S + T := by
  have hle := Nat.div_mul_le_self (a * S) T
  unfold ceilShares
  split_ifs with h
  · omega
  · have hmod := Nat.mod_add_div' (a * S) T
    rw [add_mul, one_mul]
    omega

/-- The shares for some assets, rounded up, are at most those that are worth them. -/
theorem ceilShares_le_iff {m : ℕ} (hT : 0 < T) : ceilShares S T a ≤ m ↔ a * S ≤ m * T := by
  constructor
  · intro h
    exact (le_ceilShares_mul S a hT).trans (Nat.mul_le_mul_right T h)
  · intro h
    have hlt := (ceilShares_mul_lt S a hT).trans_le (Nat.add_le_add_right h T)
    rw [← Nat.succ_mul] at hlt
    exact Nat.le_of_lt_succ (Nat.lt_of_mul_lt_mul_right hlt)

/-- Where a share is worth an asset or more, what is paid for some shares, rounded up, buys
exactly these, rounded down. -/
theorem floorShares_ceilShares (hS : 0 < S) (hle : S ≤ T) (m : ℕ) :
    floorShares S T (ceilShares T S m) = m := by
  have hlow := le_ceilShares_mul T m hS
  have hhigh := ceilShares_mul_lt T m hS
  unfold floorShares
  refine Nat.div_eq_of_lt_le hlow ?_
  rw [Nat.succ_mul]
  omega

/-! ## Prices -/

/-- Issuing at most `a * S / T` shares for `a` assets. -/
theorem PriceLe.deposit {m : ℕ} (h : m * T ≤ a * S) : PriceLe S T (S + m) (T + a) := by
  unfold PriceLe
  rw [mul_add, add_mul, mul_comm T m]
  omega

/-- Paying at most `m * T / S` assets for `m` shares. -/
theorem PriceLe.withdraw {m : ℕ} (h : a * S ≤ m * T) : PriceLe S T (S - m) (T - a) := by
  unfold PriceLe
  rw [Nat.mul_sub, Nat.sub_mul, mul_comm T m]
  omega

theorem PriceLe.gain (h : T ≤ T') : PriceLe S T S T' :=
  Nat.mul_le_mul_right S h

/-! ## What the shares are worth -/

/-- The assets that the holder counts, against the value of its shares. -/
theorem Worth.le_value (h : Worth S T s X E) (hS : 0 < S) : X ≤ s * T / S + E := by
  rw [← Nat.add_mul_div_right _ _ hS]
  exact (Nat.le_div_iff_mul_le hS).2 h.le

/-- A holder that counts what its shares are worth. -/
theorem Worth.of_le_value (hS : 0 < S) (h : X ≤ s * T / S) : Worth S T s X 0 := by
  refine ⟨?_, fun h0 => absurd h0 hS.ne'⟩
  rw [zero_mul, add_zero]
  exact (Nat.le_div_iff_mul_le hS).1 h

theorem Worth.mono (h : Worth S T s X E) (hs : s ≤ s') (hE : E ≤ E') : Worth S T s' X E' :=
  ⟨h.le.trans (Nat.add_le_add (Nat.mul_le_mul_right T hs) (Nat.mul_le_mul_right S hE)),
    fun h0 => (h.empty h0).trans hE⟩

/-- What is worth enough stays so while the price does not fall. -/
theorem PriceLe.worth (hp : PriceLe S T S' T') (hS : 0 < S) (h : X * S ≤ s * T + E * S) :
    X * S' ≤ s * T' + E * S' := by
  refine Nat.le_of_mul_le_mul_right ?_ hS
  calc X * S' * S = X * S * S' := by ring
    _ ≤ (s * T + E * S) * S' := Nat.mul_le_mul_right S' h
    _ = s * (T * S') + E * S * S' := by ring
    _ ≤ s * (T' * S) + E * S * S' := Nat.add_le_add_right (Nat.mul_le_mul_left s hp) _
    _ = (s * T' + E * S') * S := by ring

/-- The assets of the pool grow. -/
theorem Worth.gain (h : Worth S T s X E) (hT : T ≤ T') : Worth S T' s X E :=
  ⟨h.le.trans (Nat.add_le_add_right (Nat.mul_le_mul_left s hT) _), h.empty⟩

/-! ## Operations of others -/

/-- A pool without shares issues its first. -/
theorem Worth.first (h : Worth 0 T s X E) (S' T' : ℕ) : Worth S' T' s X E :=
  ⟨(Nat.mul_le_mul_right S' (h.empty rfl)).trans (Nat.le_add_left _ _), fun _ => h.empty rfl⟩

/-- Others buy shares. -/
theorem Worth.others_buy {m : ℕ} (h : Worth S T s X E) (hS : 0 < S) (hm : m * T ≤ a * S) :
    Worth (S + m) (T + a) s X E :=
  ⟨(PriceLe.deposit hm).worth hS h.le, fun h0 => by omega⟩

/-- Others deposit. -/
theorem Worth.others_deposit (h : Worth S T s X E) (hS : 0 < S) (a : ℕ) :
    Worth (S + floorShares S T a) (T + a) s X E :=
  h.others_buy hS (floorShares_mul_le S T a)

/-- Others withdraw and leave shares. -/
theorem Worth.others_withdraw {m : ℕ} (h : Worth S T s X E) (hm : m < S) (ha : a * S ≤ m * T) :
    Worth (S - m) (T - a) s X E :=
  ⟨(PriceLe.withdraw ha).worth (by omega) h.le, fun h0 => by omega⟩

/-- Others withdraw the last shares : the holder had none. -/
theorem Worth.others_leave (h : Worth S T 0 X E) (hS : 0 < S) (S' T' s : ℕ) :
    Worth S' T' s X E := by
  have hX : X ≤ E := by
    have := h.le
    rw [zero_mul, zero_add] at this
    exact Nat.le_of_mul_le_mul_right this hS
  exact ⟨(Nat.mul_le_mul_right S' hX).trans (Nat.le_add_left _ _), fun _ => hX⟩

/-! ## Operations of the holder -/

/-- The holder buys `m` shares for `a` assets and loses at most `e`, at the new price. -/
theorem Worth.buy {m e : ℕ} (h : Worth S T s X E) (hS : 0 < S) (hm : m * T ≤ a * S)
    (he : a * S ≤ m * T + e * (S + m)) : Worth (S + m) (T + a) (s + m) (X + a) (E + e) := by
  have hold := (PriceLe.deposit hm).worth hS h.le
  refine ⟨?_, fun h0 => by omega⟩
  linarith

/-- The holder sells `m` shares for `a` assets, which it goes on to count, and loses at
most `e`. -/
theorem Worth.sell {m e : ℕ} (h : Worth S T s X E) (hms : m ≤ s) (hlt : m < S)
    (hm : a * S ≤ m * T) (he : m * T ≤ a * S + e * S) :
    Worth (S - m) (T - a) (s - m) X (E + a + e) := by
  have hS : 0 < S := by omega
  have hle : X * S ≤ (s - m) * T + (E + a + e) * S := by
    have hmul := Nat.mul_le_mul_right T hms
    have hold := h.le
    rw [Nat.sub_mul, add_mul, add_mul]
    omega
  exact ⟨(PriceLe.withdraw hm).worth hS hle, fun h0 => by omega⟩

/-- The holder has all the shares and sells them for all the assets. -/
theorem Worth.sell_all (h : Worth S T S X E) (hS : 0 < S) (S' T' s' : ℕ) :
    Worth S' T' s' X (E + T) := by
  have hX : X ≤ E + T := by
    refine Nat.le_of_mul_le_mul_right (h.le.trans (le_of_eq ?_)) hS
    rw [add_mul, mul_comm S T]
    exact Nat.add_comm _ _
  exact ⟨(Nat.mul_le_mul_right S' hX).trans (Nat.le_add_left _ _), fun _ => hX⟩

/-- The holder deposits. -/
theorem Worth.deposit (h : Worth S T s X E) (hS : 0 < S) (hT : 0 < T) (a : ℕ) :
    Worth (S + floorShares S T a) (T + a) (s + floorShares S T a) (X + a)
      (E + rounding S T a) := by
  refine h.buy hS (floorShares_mul_le S T a) ((le_floorShares_add_rounding hS hT).trans ?_)
  exact Nat.add_le_add_left (Nat.mul_le_mul_left _ (Nat.le_add_right _ _)) _

/-- The holder makes the first deposit. -/
theorem Worth.deposit_first (h : Worth 0 T s X E) (a : ℕ) :
    Worth a (T + a) (s + a) (X + a) E := by
  have hX := h.empty rfl
  refine ⟨?_, fun h0 => by omega⟩
  nlinarith [Nat.mul_le_mul_right a hX, Nat.zero_le (s * (T + a)), Nat.zero_le (a * T)]

/-- The holder withdraws `b` of the assets it counts, and shares remain. -/
theorem Worth.withdraw {m : ℕ} (h : Worth S T s X E) (hm : m = ceilShares S T b) (hms : m ≤ s)
    (hlt : m < S) (hb : b ≤ X) (ha : a * S ≤ m * T) :
    Worth (S - m) (T - a) (s - m) (X - b) (E + rounding S T b) := by
  have hS : 0 < S := by omega
  have hround := ceilShares_le_add_rounding hS (T := T) (a := b)
  have hle : (X - b) * S ≤ (s - m) * T + (E + rounding S T b) * S := by
    have h1 := h.le
    have h2 := Nat.mul_le_mul_right T hms
    have h3 := Nat.mul_le_mul_right S hb
    rw [← hm] at hround
    rw [Nat.sub_mul, Nat.sub_mul, add_mul]
    omega
  exact ⟨(PriceLe.withdraw ha).worth hS hle, fun h0 => by omega⟩

/-- The holder withdraws `b` of the assets it counts with the last shares. -/
theorem Worth.leave (h : Worth S T s X E) (hS : 0 < S) (hm : S = ceilShares S T b) (hs : s = S)
    (S' T' s' : ℕ) : Worth S' T' s' (X - b) (E + rounding S T b) := by
  have hround := ceilShares_le_add_rounding hS (T := T) (a := b)
  have hle : (X - b) * S ≤ (E + rounding S T b) * S := by
    have h1 := h.le
    rw [← hm] at hround
    rw [hs] at h1
    rw [Nat.sub_mul, add_mul]
    omega
  have hX := Nat.le_of_mul_le_mul_right hle hS
  exact ⟨(Nat.mul_le_mul_right S' hX).trans (Nat.le_add_left _ _), fun _ => hX⟩

end SharePool
