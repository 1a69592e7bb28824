import Aura.Evm.Tx
import Mathlib.Algebra.BigOperators.Fin
import Mathlib.Algebra.Order.BigOperators.Group.Finset

/-!
# ERC20 ledgers

A ledger of a standard ERC20 token over any finite type of accounts. The field
`sum_balanceOf` makes the balances add up to the supply and `totalSupply_lt` bounds the
supply by a machine word, so no transfer overflows and the proofs of the accounts that
hold the token never have to say so again.

The operations are those of OpenZeppelin 4.4.2 : transfers from or to the zero account
revert, and `transferFrom` always spends allowance.
-/

open Finset Function

namespace Evm

variable {A : Type} [Fintype A] [DecidableEq A]

/-! ## Moving an amount between two entries of a function -/

/-- `n` moved from `src` to `dst`. -/
def move (f : A → ℕ) (src dst : A) (n : ℕ) : A → ℕ :=
  let g := update f src (f src - n)
  update g dst (g dst + n)

omit [Fintype A] in
theorem move_self (f : A → ℕ) (a : A) {n : ℕ} (h : n ≤ f a) : move f a a n = f := by
  simp [move, Nat.sub_add_cancel h]

omit [Fintype A] in
theorem move_zero (f : A → ℕ) (src dst : A) : move f src dst 0 = f := by
  simp [move]

omit [Fintype A] in
theorem move_src (f : A → ℕ) {src dst : A} (n : ℕ) (h : src ≠ dst) :
    move f src dst n src = f src - n := by
  simp [move, h]

omit [Fintype A] in
theorem move_dst (f : A → ℕ) {src dst : A} (n : ℕ) (h : src ≠ dst) :
    move f src dst n dst = f dst + n := by
  simp [move, h.symm]

omit [Fintype A] in
theorem move_of_ne (f : A → ℕ) {src dst a : A} (n : ℕ) (hs : a ≠ src) (hd : a ≠ dst) :
    move f src dst n a = f a := by
  simp [move, hs, hd]

omit [Fintype A] in
/-- What moves is there afterwards. -/
theorem le_move_dst (f : A → ℕ) (src dst : A) (n : ℕ) : n ≤ move f src dst n dst := by
  unfold move
  rw [update_self]
  exact Nat.le_add_left _ _

omit [Fintype A] in
/-- No entry loses more than what moves. -/
theorem le_move_add (f : A → ℕ) (src dst : A) (n : ℕ) (a : A) : f a ≤ move f src dst n a + n := by
  by_cases hd : a = dst
  · subst hd
    by_cases hs : a = src
    · subst hs
      simp only [move, update_self]
      omega
    · rw [move_dst f n (Ne.symm hs)]
      omega
  · by_cases hs : a = src
    · subst hs
      rw [move_src f n hd]
      omega
    · rw [move_of_ne f n hs hd]
      omega

/-- A sum after one entry is replaced. -/
theorem sum_update_add (f : A → ℕ) (a : A) (b : ℕ) :
    ∑ x, update f a b x + f a = ∑ x, f x + b := by
  rw [sum_update_of_mem (mem_univ a), ← sum_erase_add univ f (mem_univ a),
    sdiff_singleton_eq_erase]
  ring

/-- A sum of values of `g` after one argument is replaced. -/
theorem sum_update_map {B : Type} (g : B → ℕ) (f : A → B) (a : A) (b : B) :
    ∑ x, g (update f a b x) + g (f a) = ∑ x, g (f x) + g b := by
  have hsum := sum_update_add (fun x => g (f x)) a (g b)
  have hg : update (fun x => g (f x)) a (g b) = fun x => g (update f a b x) :=
    funext fun x => (apply_update (fun _ => g) f a b x).symm
  rwa [hg] at hsum

/-- A sum after one entry grows. -/
theorem sum_update_of_add (f : A → ℕ) (a : A) (n : ℕ) :
    ∑ x, update f a (f a + n) x = ∑ x, f x + n := by
  have := sum_update_add f a (f a + n)
  omega

/-- A sum after one entry shrinks. -/
theorem sum_update_of_sub (f : A → ℕ) (a : A) {n : ℕ} (h : n ≤ f a) :
    ∑ x, update f a (f a - n) x + n = ∑ x, f x := by
  have := sum_update_add f a (f a - n)
  omega

omit [DecidableEq A] in
theorem le_sum (f : A → ℕ) (a : A) : f a ≤ ∑ x, f x :=
  single_le_sum (fun _ _ => Nat.zero_le _) (mem_univ a)

theorem sum_move (f : A → ℕ) {src dst : A} {n : ℕ} (h : n ≤ f src) :
    ∑ x, move f src dst n x = ∑ x, f x := by
  have h1 := sum_update_of_sub f src h
  have h2 := sum_update_of_add (update f src (f src - n)) dst n
  unfold move
  omega

/-! ## The ledger -/

/-- The storage of a standard ERC20 token. -/
structure Erc20 (A : Type) [Fintype A] where
  balanceOf : A → ℕ
  allowance : A → A → ℕ
  totalSupply : ℕ
  sum_balanceOf : ∑ a, balanceOf a = totalSupply
  totalSupply_lt : totalSupply < 2 ^ 256

namespace Erc20

variable [Zero A]

/-- A token nobody holds. -/
def empty : Erc20 A where
  balanceOf _ := 0
  allowance _ _ := 0
  totalSupply := 0
  sum_balanceOf := by simp
  totalSupply_lt := by positivity

omit [Zero A] in
/-- A token of which `a` holds the whole supply `n`. -/
def single (a : A) (n : ℕ) (h : n < 2 ^ 256) (allowance : A → A → ℕ) : Erc20 A where
  balanceOf := update (fun _ => 0) a n
  allowance := allowance
  totalSupply := n
  sum_balanceOf := by
    have := sum_update_of_add (fun _ => 0) a n
    simpa using this
  totalSupply_lt := h

theorem single_supply_lt : 10 ^ 30 < 2 ^ 256 := by
  norm_num

omit [DecidableEq A] [Zero A] in
theorem balanceOf_le (t : Erc20 A) (a : A) : t.balanceOf a ≤ t.totalSupply :=
  t.sum_balanceOf ▸ le_sum t.balanceOf a

omit [Zero A] in
/-- Two accounts hold at most the supply. -/
theorem balanceOf_add_le (t : Erc20 A) {a b : A} (h : a ≠ b) :
    t.balanceOf a + t.balanceOf b ≤ t.totalSupply := by
  rw [← t.sum_balanceOf, ← sum_pair h]
  exact sum_le_sum_of_subset (subset_univ _)

/-- `_transfer`. -/
def transfer (t : Erc20 A) (src dst : A) (n : ℕ) : Tx (Erc20 A) := do
  require (src ≠ 0) "ERC20: transfer from the zero address"
  require (dst ≠ 0) "ERC20: transfer to the zero address"
  if h : n ≤ t.balanceOf src then
    .ok { t with
      balanceOf := move t.balanceOf src dst n
      sum_balanceOf := by rw [sum_move t.balanceOf h, t.sum_balanceOf] }
  else .error (.reason "ERC20: transfer amount exceeds balance")

/-- `approve`. -/
def approve (t : Erc20 A) (owner spender : A) (n : ℕ) : Tx (Erc20 A) := do
  require (owner ≠ 0) "ERC20: approve from the zero address"
  require (spender ≠ 0) "ERC20: approve to the zero address"
  .ok { t with allowance := update t.allowance owner (update (t.allowance owner) spender n) }

/-- `transferFrom`, called by `spender`. -/
def transferFrom (t : Erc20 A) (spender src dst : A) (n : ℕ) : Tx (Erc20 A) := do
  let t ← t.transfer src dst n
  require (n ≤ t.allowance src spender) "ERC20: transfer amount exceeds allowance"
  t.approve src spender (t.allowance src spender - n)

/-- `_mint`. -/
def mint (t : Erc20 A) (a : A) (n : ℕ) : Tx (Erc20 A) := do
  require (a ≠ 0) "ERC20: mint to the zero address"
  if h : t.totalSupply + n < 2 ^ 256 then
    .ok { t with
      balanceOf := update t.balanceOf a (t.balanceOf a + n)
      totalSupply := t.totalSupply + n
      sum_balanceOf := by rw [sum_update_of_add, t.sum_balanceOf]
      totalSupply_lt := h }
  else .error .overflow

/-- `_burn`. -/
def burn (t : Erc20 A) (a : A) (n : ℕ) : Tx (Erc20 A) := do
  require (a ≠ 0) "ERC20: burn from the zero address"
  if h : n ≤ t.balanceOf a then
    .ok { t with
      balanceOf := update t.balanceOf a (t.balanceOf a - n)
      totalSupply := t.totalSupply - n
      sum_balanceOf := by
        have := sum_update_of_sub t.balanceOf a h
        have := t.sum_balanceOf
        omega
      totalSupply_lt := (Nat.sub_le _ _).trans_lt t.totalSupply_lt }
  else .error (.reason "ERC20: burn amount exceeds balance")

/-- What a successful transfer does. -/
theorem transfer_eq_ok {t t' : Erc20 A} {src dst : A} {n : ℕ} (h : t.transfer src dst n = .ok t') :
    src ≠ 0 ∧ dst ≠ 0 ∧ n ≤ t.balanceOf src ∧ t'.balanceOf = move t.balanceOf src dst n ∧
      t'.allowance = t.allowance ∧ t'.totalSupply = t.totalSupply := by
  unfold transfer at h
  obtain ⟨hs, h⟩ := require_bind_eq_ok.1 h
  obtain ⟨hd, h⟩ := require_bind_eq_ok.1 h
  split_ifs at h with hn
  cases h
  exact ⟨hs, hd, hn, rfl, rfl, rfl⟩

/-- No account loses more than what is transferred. -/
theorem le_transfer_add {t t' : Erc20 A} {src dst : A} {n : ℕ} (h : t.transfer src dst n = .ok t')
    (a : A) : t.balanceOf a ≤ t'.balanceOf a + n := by
  rw [(transfer_eq_ok h).2.2.2.1]
  exact le_move_add t.balanceOf src dst n a

/-- A transfer of at most the balance between accounts other than zero succeeds. -/
theorem exists_transfer (t : Erc20 A) {src dst : A} {n : ℕ} (hs : src ≠ 0) (hd : dst ≠ 0)
    (hn : n ≤ t.balanceOf src) : ∃ t', t.transfer src dst n = .ok t' := by
  simp [transfer, hs, hd, hn]

/-- So does a `transferFrom` of at most the allowance. -/
theorem exists_transferFrom (t : Erc20 A) {spender src dst : A} {n : ℕ} (hs : src ≠ 0)
    (hd : dst ≠ 0) (hp : spender ≠ 0) (hn : n ≤ t.balanceOf src)
    (ha : n ≤ t.allowance src spender) :
    ∃ t', t.transferFrom spender src dst n = .ok t' := by
  simp [transferFrom, transfer, approve, hs, hd, hp, hn, ha]

/-- A mint that fits a word succeeds. -/
theorem exists_mint (t : Erc20 A) {a : A} {n : ℕ} (ha : a ≠ 0) (hn : t.totalSupply + n < 2 ^ 256) :
    ∃ t', t.mint a n = .ok t' := by
  unfold mint
  rw [require_of ha, ok_bind, dif_pos hn]
  exact ⟨_, rfl⟩

/-- A burn of at most the balance of an account other than zero succeeds. -/
theorem exists_burn (t : Erc20 A) {a : A} {n : ℕ} (ha : a ≠ 0) (hn : n ≤ t.balanceOf a) :
    ∃ t', t.burn a n = .ok t' := by
  unfold burn
  rw [require_of ha, ok_bind, dif_pos hn]
  exact ⟨_, rfl⟩

theorem approve_eq_ok {t t' : Erc20 A} {owner spender : A} {n : ℕ}
    (h : t.approve owner spender n = .ok t') :
    t'.balanceOf = t.balanceOf ∧ t'.totalSupply = t.totalSupply := by
  unfold approve at h
  obtain ⟨-, h⟩ := require_bind_eq_ok.1 h
  obtain ⟨-, h⟩ := require_bind_eq_ok.1 h
  cases h
  exact ⟨rfl, rfl⟩

/-- What a successful `transferFrom` does to the balances. -/
theorem transferFrom_eq_ok {t t' : Erc20 A} {spender src dst : A} {n : ℕ}
    (h : t.transferFrom spender src dst n = .ok t') :
    dst ≠ 0 ∧ n ≤ t.balanceOf src ∧ t'.balanceOf = move t.balanceOf src dst n ∧
      t'.totalSupply = t.totalSupply := by
  unfold transferFrom at h
  obtain ⟨t₁, h₁, h⟩ := bind_eq_ok.1 h
  obtain ⟨-, h⟩ := require_bind_eq_ok.1 h
  obtain ⟨-, hd, hn, hb, -, hsup⟩ := transfer_eq_ok h₁
  obtain ⟨hb', hsup'⟩ := approve_eq_ok h
  exact ⟨hd, hn, hb'.trans hb, hsup'.trans hsup⟩

/-- What a successful mint does. -/
theorem mint_eq_ok {t t' : Erc20 A} {a : A} {n : ℕ} (h : t.mint a n = .ok t') :
    a ≠ 0 ∧ t'.balanceOf = update t.balanceOf a (t.balanceOf a + n) ∧
      t'.totalSupply = t.totalSupply + n := by
  unfold mint at h
  obtain ⟨ha, h⟩ := require_bind_eq_ok.1 h
  split_ifs at h with hn
  cases h
  exact ⟨ha, rfl, rfl⟩

/-- What a successful burn does. -/
theorem burn_eq_ok {t t' : Erc20 A} {a : A} {n : ℕ} (h : t.burn a n = .ok t') :
    n ≤ t.balanceOf a ∧ t'.balanceOf = update t.balanceOf a (t.balanceOf a - n) ∧
      t'.totalSupply + n = t.totalSupply := by
  unfold burn at h
  obtain ⟨-, h⟩ := require_bind_eq_ok.1 h
  split_ifs at h with hn
  cases h
  exact ⟨hn, rfl, Nat.sub_add_cancel (hn.trans (t.balanceOf_le a))⟩

/-! ## Allowances -/

theorem mint_allowance {t t' : Erc20 A} {a : A} {n : ℕ} (h : t.mint a n = .ok t') :
    t'.allowance = t.allowance := by
  unfold mint at h
  obtain ⟨-, h⟩ := require_bind_eq_ok.1 h
  split_ifs at h
  cases h
  rfl

theorem burn_allowance {t t' : Erc20 A} {a : A} {n : ℕ} (h : t.burn a n = .ok t') :
    t'.allowance = t.allowance := by
  unfold burn at h
  obtain ⟨-, h⟩ := require_bind_eq_ok.1 h
  split_ifs at h
  cases h
  rfl

/-- Only the owner changes its allowances by `approve`. -/
theorem approve_allowance {t t' : Erc20 A} {owner spender : A} {n : ℕ}
    (h : t.approve owner spender n = .ok t') (a b : A) :
    t'.allowance a b = if a = owner ∧ b = spender then n else t.allowance a b := by
  unfold approve at h
  obtain ⟨-, h⟩ := require_bind_eq_ok.1 h
  obtain ⟨-, h⟩ := require_bind_eq_ok.1 h
  cases h
  by_cases ha : a = owner
  · subst ha
    by_cases hb : b = spender
    · simp [hb]
    · simp [hb]
  · simp [ha]

/-- A `transferFrom` needs the allowance and raises none. -/
theorem transferFrom_allowance {t t' : Erc20 A} {spender src dst : A} {n : ℕ}
    (h : t.transferFrom spender src dst n = .ok t') :
    n ≤ t.allowance src spender ∧ ∀ a b, t'.allowance a b ≤ t.allowance a b := by
  unfold transferFrom at h
  obtain ⟨t₁, h₁, h⟩ := bind_eq_ok.1 h
  obtain ⟨hn, h⟩ := require_bind_eq_ok.1 h
  obtain ⟨-, -, -, -, hall, -⟩ := transfer_eq_ok h₁
  rw [hall] at hn
  refine ⟨hn, fun a b => ?_⟩
  rw [approve_allowance h, hall]
  split_ifs with hab
  · rw [hab.1, hab.2]
    exact Nat.sub_le _ _
  · exact le_rfl

/-- A pull spends exactly the allowance. -/
theorem transferFrom_spent {t t' : Erc20 A} {spender src dst : A} {n : ℕ}
    (h : t.transferFrom spender src dst n = .ok t') :
    t'.allowance src spender + n = t.allowance src spender := by
  obtain ⟨t₁, h₁, h⟩ := bind_eq_ok.1 h
  obtain ⟨hn, h⟩ := require_bind_eq_ok.1 h
  obtain ⟨-, -, -, -, hall, -⟩ := transfer_eq_ok h₁
  rw [approve_allowance h, if_pos ⟨rfl, rfl⟩, ← hall]
  exact Nat.sub_add_cancel hn

/-! ## SafeERC20 -/

omit [Zero A] in
/-- The account `a` has approved nobody. -/
def Unapproved (t : Erc20 A) (a : A) : Prop :=
  ∀ b, t.allowance a b = 0

/-- `safeApprove`, called by `owner`. -/
def safeApprove (t : Erc20 A) (owner spender : A) (value : ℕ) : Tx (Erc20 A) := do
  require (value = 0 ∨ t.allowance owner spender = 0)
    "SafeERC20: approve from non-zero to non-zero allowance"
  t.approve owner spender value

/-- `safeIncreaseAllowance`, called by `owner`. -/
def safeIncreaseAllowance (t : Erc20 A) (owner spender : A) (value : ℕ) : Tx (Erc20 A) := do
  let newAllowance ← uadd 256 (t.allowance owner spender) value
  t.approve owner spender newAllowance

theorem safeApprove_eq_ok {t t' : Erc20 A} {owner spender : A} {value : ℕ}
    (h : t.safeApprove owner spender value = .ok t') :
    t.approve owner spender value = .ok t' :=
  (require_bind_eq_ok.1 h).2

/-- From an owner that has approved nobody, `safeIncreaseAllowance` approves the value. -/
theorem Unapproved.safeIncreaseAllowance {t : Erc20 A} {owner : A} (h : t.Unapproved owner)
    (spender : A) {value : ℕ} (hv : value < 2 ^ 256) :
    t.safeIncreaseAllowance owner spender value = t.approve owner spender value := by
  have h0 := h spender
  have hsum : 0 + value < 2 ^ 256 := by omega
  rw [Erc20.safeIncreaseAllowance, h0, uadd_of hsum, ok_bind, Nat.zero_add]

/-- Approving an amount that the spender then takes : the amount moves, and in the end
nobody is approved again. -/
theorem Unapproved.approve_pull {t t₁ t₂ : Erc20 A} {owner spender dst : A} {n : ℕ}
    (h : t.Unapproved owner) (h₁ : t.approve owner spender n = .ok t₁)
    (h₂ : t₁.transferFrom spender owner dst n = .ok t₂) :
    n ≤ t.balanceOf owner ∧ t₂.balanceOf = move t.balanceOf owner dst n ∧ t₂.Unapproved owner := by
  have hb₁ := (approve_eq_ok h₁).1
  obtain ⟨-, hn, hb₂, -⟩ := transferFrom_eq_ok h₂
  rw [hb₁] at hn hb₂
  refine ⟨hn, hb₂, fun b => ?_⟩
  obtain ⟨t₃, h₃, h₂⟩ := bind_eq_ok.1 h₂
  obtain ⟨-, h₂⟩ := require_bind_eq_ok.1 h₂
  obtain ⟨-, -, -, -, hall, -⟩ := transfer_eq_ok h₃
  rw [approve_allowance h₂, hall, approve_allowance h₁, approve_allowance h₁]
  split_ifs with hs hb
  · exact Nat.sub_self n
  · exact absurd ⟨rfl, rfl⟩ hb
  · exact h b

/-- Approving nothing. -/
theorem Unapproved.approve_zero {t t' : Erc20 A} {owner spender : A} (h : t.Unapproved owner)
    (ht : t.approve owner spender 0 = .ok t') : t'.Unapproved owner := by
  intro b
  rw [approve_allowance ht]
  split_ifs
  · rfl
  · exact h b

/-- What others can do to the tokens of `a`, which itself calls nothing meanwhile : they
approve nobody for it, and take nothing from it unless it has approved someone. -/
structure Others (a : A) (t t' : Erc20 A) : Prop where
  allowance : ∀ b, t'.allowance a b ≤ t.allowance a b
  balanceOf : t.Unapproved a → t.balanceOf a ≤ t'.balanceOf a

omit [DecidableEq A] [Zero A] in
theorem Others.refl (a : A) (t : Erc20 A) : Others a t t :=
  ⟨fun _ => le_rfl, fun _ => le_rfl⟩

omit [DecidableEq A] [Zero A] in
theorem Others.unapproved {a : A} {t t' : Erc20 A} (h : Others a t t') (ha : t.Unapproved a) :
    t'.Unapproved a :=
  fun b => Nat.le_zero.1 ((h.allowance b).trans (ha b).le)

theorem Unapproved.transfer {t t' : Erc20 A} {a src dst : A} {n : ℕ} (h : t.Unapproved a)
    (ht : t.transfer src dst n = .ok t') : t'.Unapproved a := by
  intro b
  rw [(transfer_eq_ok ht).2.2.2.2.1]
  exact h b

/-- A pull by `a` itself spends what others have approved. -/
theorem Unapproved.transferFrom {t t' : Erc20 A} {a spender src dst : A} {n : ℕ}
    (h : t.Unapproved a) (ht : t.transferFrom spender src dst n = .ok t') : t'.Unapproved a :=
  fun b => Nat.le_zero.1 (((transferFrom_allowance ht).2 a b).trans (h b).le)

/-! ## No operation underflows -/

theorem transfer_ne_underflow (t : Erc20 A) (src dst : A) (n : ℕ) :
    t.transfer src dst n ≠ .error .underflow := by
  unfold transfer
  refine bind_ne_underflow (require_ne_underflow _) fun _ _ => ?_
  refine bind_ne_underflow (require_ne_underflow _) fun _ _ => ?_
  split_ifs <;> simp

theorem approve_ne_underflow (t : Erc20 A) (owner spender : A) (n : ℕ) :
    t.approve owner spender n ≠ .error .underflow := by
  unfold approve
  refine bind_ne_underflow (require_ne_underflow _) fun _ _ => ?_
  exact bind_ne_underflow (require_ne_underflow _) fun _ _ => ok_ne_underflow _

theorem transferFrom_ne_underflow (t : Erc20 A) (spender src dst : A) (n : ℕ) :
    t.transferFrom spender src dst n ≠ .error .underflow := by
  unfold transferFrom
  refine bind_ne_underflow (t.transfer_ne_underflow src dst n) fun t' _ => ?_
  exact bind_ne_underflow (require_ne_underflow _) fun _ _ => t'.approve_ne_underflow _ _ _

theorem mint_ne_underflow (t : Erc20 A) (a : A) (n : ℕ) : t.mint a n ≠ .error .underflow := by
  unfold mint
  refine bind_ne_underflow (require_ne_underflow _) fun _ _ => ?_
  split_ifs <;> simp

/-! ## No operation but a mint panics -/

theorem noPanic_transfer (t : Erc20 A) (src dst : A) (n : ℕ) : NoPanic (t.transfer src dst n) := by
  unfold transfer
  refine (noPanic_require _).bind fun _ _ => ?_
  refine (noPanic_require _).bind fun _ _ => ?_
  split_ifs
  · exact noPanic_ok _
  · exact noPanic_reason _

theorem noPanic_approve (t : Erc20 A) (owner spender : A) (n : ℕ) :
    NoPanic (t.approve owner spender n) :=
  (noPanic_require _).bind fun _ _ => (noPanic_require _).bind fun _ _ => noPanic_ok _

theorem noPanic_transferFrom (t : Erc20 A) (spender src dst : A) (n : ℕ) :
    NoPanic (t.transferFrom spender src dst n) :=
  (t.noPanic_transfer src dst n).bind fun _ _ =>
    (noPanic_require _).bind fun _ _ => noPanic_approve _ _ _ _

theorem safeApprove_ne_underflow (t : Erc20 A) (owner spender : A) (n : ℕ) :
    t.safeApprove owner spender n ≠ .error .underflow :=
  bind_ne_underflow (require_ne_underflow _) fun _ _ => t.approve_ne_underflow owner spender n

end Erc20

end Evm
