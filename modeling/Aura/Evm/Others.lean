import Aura.Evm.Erc20

/-!
# What others do with a token

A contract that calls another one cannot know what happens before the call returns. As far
as a token is concerned it comes to some calls of the token by other accounts (`Outside`).
They take from the contract only what it has approved, and use up the allowance as they do
(`Spends`). So what a contract holds beyond its allowances never shrinks while others act.
-/

open Finset Function

namespace Evm.Erc20

variable {A : Type} [Fintype A] [DecidableEq A] [Zero A]

/-- The functions of a token that anybody can call. -/
inductive Call (A : Type) where
  | transfer (recipient : A) (amount : ℕ)
  | approve (spender : A) (amount : ℕ)
  | transferFrom (sender recipient : A) (amount : ℕ)
  deriving DecidableEq

/-- Run a call of `msgSender`. -/
def call (t : Erc20 A) (msgSender : A) : Call A → Tx (Erc20 A)
  | .transfer recipient amount => t.transfer msgSender recipient amount
  | .approve spender amount => t.approve msgSender spender amount
  | .transferFrom sender recipient amount => t.transferFrom msgSender sender recipient amount

/-- Calls of accounts other than `a`. -/
structure Outside (a : A) where
  calls : List (A × Call A)
  ne : ∀ c ∈ calls, c.1 ≠ a
  deriving DecidableEq

/-- Run the calls, one after the other. -/
def Outside.run {a : A} (o : Outside a) (t : Erc20 A) : Tx (Erc20 A) :=
  o.calls.foldlM (fun t c => t.call c.1 c.2) t

/-- A call of one account. -/
def Outside.one {a b : A} (h : b ≠ a) (c : Call A) : Outside a :=
  ⟨[(b, c)], by simpa using h⟩

omit [Zero A] [DecidableEq A] in
/-- What `a` has approved, for all spenders. -/
def approved (t : Erc20 A) (a : A) : ℕ :=
  ∑ b, t.allowance a b

/-- Whatever `a` has lost was approved, and is no longer. -/
structure Spends (a : A) (t t' : Erc20 A) : Prop where
  allowance : ∀ b, t'.allowance a b ≤ t.allowance a b
  balanceOf : t.balanceOf a + t'.approved a ≤ t'.balanceOf a + t.approved a

variable {a : A} {t t' t'' : Erc20 A}

omit [DecidableEq A] [Zero A] in
theorem Spends.refl (a : A) (t : Erc20 A) : Spends a t t :=
  ⟨fun _ => le_rfl, le_rfl⟩

omit [DecidableEq A] [Zero A] in
theorem Spends.trans (h : Spends a t t') (h' : Spends a t' t'') : Spends a t t'' := by
  refine ⟨fun b => (h'.allowance b).trans (h.allowance b), ?_⟩
  have h₁ := h.balanceOf
  have h₂ := h'.balanceOf
  omega

omit [DecidableEq A] [Zero A] in
/-- With the allowances of `a` unchanged, nothing is lost. -/
theorem Spends.of_le (hb : t.balanceOf a ≤ t'.balanceOf a)
    (hall : ∀ b, t'.allowance a b = t.allowance a b) : Spends a t t' := by
  refine ⟨fun b => (hall b).le, ?_⟩
  have hsum : t'.approved a = t.approved a := sum_congr rfl fun b _ => hall b
  omega

omit [Fintype A] [Zero A] in
/-- An entry that nothing is moved from does not shrink. -/
theorem le_move (f : A → ℕ) {src dst : A} (n : ℕ) (h : src ≠ a) : f a ≤ move f src dst n a := by
  by_cases hd : a = dst
  · subst hd
    rw [move_dst f n h]
    exact Nat.le_add_right _ _
  · rw [move_of_ne f n h.symm hd]

theorem spends_transfer {src dst : A} {n : ℕ} (hs : src ≠ a) (h : t.transfer src dst n = .ok t') :
    Spends a t t' := by
  obtain ⟨-, -, -, hb, hall, -⟩ := transfer_eq_ok h
  refine .of_le ?_ fun b => by rw [hall]
  rw [hb]
  exact le_move _ n hs

theorem spends_approve {owner spender : A} {n : ℕ} (ho : owner ≠ a)
    (h : t.approve owner spender n = .ok t') : Spends a t t' := by
  refine .of_le (by rw [(approve_eq_ok h).1]) fun b => ?_
  rw [approve_allowance h, if_neg fun hab => ho hab.1.symm]

/-- What is approved after an approval. -/
theorem approved_approve {owner spender : A} {n : ℕ} (h : t.approve owner spender n = .ok t') :
    t'.approved owner + t.allowance owner spender = t.approved owner + n := by
  have hall : ∀ b, t'.allowance owner b = update (t.allowance owner) spender n b := by
    intro b
    rw [approve_allowance h, update_apply]
    simp
  unfold approved
  rw [sum_congr rfl fun b _ => hall b]
  exact sum_update_add _ _ _

/-- A pull spends the allowance that it uses. -/
theorem spends_transferFrom {spender src dst : A} {n : ℕ}
    (h : t.transferFrom spender src dst n = .ok t') : Spends a t t' := by
  have hle := (transferFrom_allowance h).2
  obtain ⟨t₁, h₁, h⟩ := bind_eq_ok.1 h
  obtain ⟨hn, h⟩ := require_bind_eq_ok.1 h
  by_cases hs : src = a
  · subst hs
    obtain ⟨-, -, -, -, hall, -⟩ := transfer_eq_ok h₁
    refine ⟨fun b => hle src b, ?_⟩
    have happ := approved_approve h
    have hsame : t₁.approved src = t.approved src := by
      unfold approved
      rw [hall]
    have hbal := le_transfer_add h₁ src
    rw [(approve_eq_ok h).1]
    omega
  · exact (spends_transfer hs h₁).trans (spends_approve hs h)

/-- A call of another account. -/
theorem spends_call {b : A} {c : Call A} (hb : b ≠ a) (h : t.call b c = .ok t') :
    Spends a t t' := by
  cases c with
  | transfer _ _ => exact spends_transfer hb h
  | approve _ _ => exact spends_approve hb h
  | transferFrom _ _ _ => exact spends_transferFrom h

/-- Whatever others do, they take only what is approved. -/
theorem Outside.spends {o : Outside a} (h : o.run t = .ok t') : Spends a t t' := by
  have hne := o.ne
  unfold Outside.run at h
  generalize o.calls = calls at h hne
  induction calls generalizing t with
  | nil =>
    cases h
    exact .refl a _
  | cons c calls ih =>
    rw [List.foldlM_cons] at h
    obtain ⟨t₁, h₁, h⟩ := bind_eq_ok.1 h
    have hrest := ih h fun c' hc => hne c' (List.mem_cons_of_mem c hc)
    exact (spends_call (hne c List.mem_cons_self) h₁).trans hrest

/-! ## What the contract itself does -/

theorem approved_transfer {src dst : A} {n : ℕ} (h : t.transfer src dst n = .ok t') (b : A) :
    t'.approved b = t.approved b := by
  unfold approved
  rw [(transfer_eq_ok h).2.2.2.2.1]

/-- Pulling from another account approves nobody. -/
theorem approved_transferFrom {spender src dst : A} {n : ℕ} (hs : src ≠ a)
    (h : t.transferFrom spender src dst n = .ok t') : t'.approved a = t.approved a := by
  obtain ⟨t₁, h₁, h⟩ := bind_eq_ok.1 h
  obtain ⟨-, h⟩ := require_bind_eq_ok.1 h
  rw [← approved_transfer h₁ a]
  refine sum_congr rfl fun b _ => ?_
  rw [approve_allowance h, if_neg fun hab => hs hab.1.symm]

theorem safeIncreaseAllowance_eq_ok {owner spender : A} {value : ℕ}
    (h : t.safeIncreaseAllowance owner spender value = .ok t') :
    t'.balanceOf = t.balanceOf ∧ t'.approved owner = t.approved owner + value := by
  obtain ⟨n, hn, h⟩ := bind_eq_ok.1 h
  obtain ⟨-, rfl⟩ := uadd_eq_ok.1 hn
  have happ := approved_approve h
  exact ⟨(approve_eq_ok h).1, by omega⟩

end Evm.Erc20
