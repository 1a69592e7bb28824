import Mathlib.Algebra.BigOperators.Intervals
import Mathlib.Algebra.Order.BigOperators.Group.Finset
import Mathlib.Tactic.Ring

/-!
# Delegated votes that expire

Users hold weight that expires in weeks and delegate it week by week. `Ballot` is the
whole history : who delegates to whom in each week, and how much of a user's weight
expires in each week. Weight that expires in week `j` counts in the `term` weeks before
`j`, so weight acquired in week `k` counts from `k + 1` to `k + term` and expires in
`k + term + 1`.

`votes D k` is what the delegatee `D` is worth in week `k` and `expiring D j` what it
loses at the start of week `j`. A week is `Quiet` for `D` if at its end no user joins or
leaves `D` and no user of `D` acquires weight. Over quiet weeks the votes only lose what
expires (`votes_add`), and after `term` of them nothing is left (`votes_eq_zero`). So a
record of `votes D` at the weeks that are not quiet determines it everywhere.

`acquire` and `redelegate` are the two ways a history grows, with their effect on votes
and expiries. Both leave the past alone (`Agree`).
-/

open Finset Function

/-- A history of delegations and expiring weights. -/
@[ext] structure Ballot (User Delegatee : Type) where
  /-- Weeks in which acquired weight counts. -/
  term : ℕ
  /-- The delegatee of a user in a week. -/
  delegate : User → ℕ → Option Delegatee
  /-- The weight of a user that expires in a week. -/
  weight : User → ℕ → ℕ

namespace Ballot

variable {User Delegatee : Type} [Fintype User] [DecidableEq User] [DecidableEq Delegatee]
  (b : Ballot User Delegatee)

/-- The weight of `u` that counts in week `k`. -/
def active (u : User) (k : ℕ) : ℕ :=
  ∑ i ∈ range b.term, b.weight u (k + 1 + i)

/-- The votes of `D` in week `k`. -/
def votes (D : Delegatee) (k : ℕ) : ℕ :=
  ∑ u, if b.delegate u k = some D then b.active u k else 0

/-- The votes of `D` that expire at the start of week `j`. -/
def expiring (D : Delegatee) (j : ℕ) : ℕ :=
  ∑ u, if b.delegate u (j - 1) = some D then b.weight u j else 0

/-- From week `k` to the next, nobody joins or leaves `D` and nobody of `D` acquires weight. -/
structure Quiet (D : Delegatee) (k : ℕ) : Prop where
  delegate : ∀ u, b.delegate u (k + 1) = some D ↔ b.delegate u k = some D
  weight : ∀ u, b.delegate u (k + 1) = some D → b.weight u (k + 1 + b.term) = 0

omit [Fintype User] [DecidableEq User] [DecidableEq Delegatee] in
/-- From one week to the next, one week's weight expires and one week's comes in. -/
theorem active_succ (u : User) (k : ℕ) :
    b.active u (k + 1) + b.weight u (k + 1) = b.active u k + b.weight u (k + 1 + b.term) := by
  have h1 := sum_range_succ (fun i => b.weight u (k + 1 + i)) b.term
  have h2 := sum_range_succ' (fun i => b.weight u (k + 1 + i)) b.term
  have h3 : ∑ i ∈ range b.term, b.weight u (k + 1 + (i + 1)) = b.active u (k + 1) :=
    sum_congr rfl fun i _ => by rw [show k + 1 + (i + 1) = k + 1 + 1 + i by ring]
  simp only [add_zero] at h2
  rw [← h3]
  exact (h2.symm.trans h1)

omit [Fintype User] [DecidableEq User] [DecidableEq Delegatee] in
/-- A week stays quiet in another history with the same users and acquisitions of `D`. -/
theorem Quiet.congr {b b' : Ballot User Delegatee} {D : Delegatee} {k : ℕ} (h : b.Quiet D k)
    (hk : ∀ u, b'.delegate u k = some D ↔ b.delegate u k = some D)
    (hk' : ∀ u, b'.delegate u (k + 1) = some D ↔ b.delegate u (k + 1) = some D)
    (hw : ∀ u, b.delegate u (k + 1) = some D →
      b'.weight u (k + 1 + b'.term) = b.weight u (k + 1 + b.term)) : b'.Quiet D k := by
  refine ⟨fun u => ?_, fun u hu => ?_⟩
  · rw [hk, hk', h.delegate]
  · have hu := (hk' u).1 hu
    rw [hw u hu, h.weight u hu]

omit [DecidableEq User] in
/-- Over a quiet week the votes lose exactly what expires. -/
theorem votes_succ {D : Delegatee} {k : ℕ} (h : b.Quiet D k) :
    b.votes D (k + 1) + b.expiring D (k + 1) = b.votes D k := by
  unfold votes expiring
  rw [← sum_add_distrib]
  refine sum_congr rfl fun u _ => ?_
  simp only [Nat.add_sub_cancel]
  by_cases hu : b.delegate u k = some D
  · have hu' := (h.delegate u).2 hu
    have := b.active_succ u k
    rw [h.weight u hu'] at this
    rw [if_pos hu', if_pos hu, if_pos hu, this, add_zero]
  · rw [if_neg fun h' => hu ((h.delegate u).1 h'), if_neg hu, if_neg hu]

omit [DecidableEq User] in
/-- Over quiet weeks the votes lose exactly what expires. -/
theorem votes_add {D : Delegatee} {k : ℕ} :
    ∀ {n : ℕ}, (∀ i < n, b.Quiet D (k + i)) →
      b.votes D (k + n) + ∑ i ∈ range n, b.expiring D (k + i + 1) = b.votes D k
  | 0, _ => by simp
  | n + 1, h => by
    have ih := votes_add fun i hi => h i (Nat.lt_succ_of_lt hi)
    have hs := b.votes_succ (h n (Nat.lt_succ_self n))
    rw [sum_range_succ, ← ih, ← hs, ← add_assoc k n 1]
    ring

omit [DecidableEq User] in
/-- Over quiet weeks votes do not grow. -/
theorem votes_le {D : Delegatee} {k n : ℕ} (h : ∀ i < n, b.Quiet D (k + i)) :
    b.votes D (k + n) ≤ b.votes D k :=
  b.votes_add h ▸ Nat.le_add_right _ _

omit [Fintype User] [DecidableEq User] [DecidableEq Delegatee] in
/-- Over quiet weeks nobody joins or leaves. -/
theorem delegate_of_quiet {D : Delegatee} {k : ℕ} {u : User} :
    ∀ {n : ℕ}, (∀ i < n, b.Quiet D (k + i)) → b.delegate u (k + n) = some D →
      ∀ i ≤ n, b.delegate u (k + i) = some D
  | 0, _, hu, i, hi => by
    obtain rfl : i = 0 := by omega
    exact hu
  | n + 1, h, hu, i, hi => by
    rcases Nat.lt_or_ge n i with hlt | hle
    · obtain rfl : i = n + 1 := by omega
      exact hu
    · exact delegate_of_quiet (fun i hi => h i (by omega))
        (((h n (by omega)).delegate u).1 hu) i hle

omit [DecidableEq User] in
/-- After `term` quiet weeks everything has expired. -/
theorem votes_eq_zero {D : Delegatee} {k n : ℕ} (h : ∀ i < n, b.Quiet D (k + i))
    (hn : b.term ≤ n) : b.votes D (k + n) = 0 := by
  refine sum_eq_zero fun u _ => ?_
  split_ifs with hu
  · refine sum_eq_zero fun j hj => ?_
    -- the weight that would count was acquired in the quiet week `k + (n + j - term)`
    have hj := mem_range.1 hj
    have hd := b.delegate_of_quiet h hu (n + j - b.term + 1) (by omega)
    have hw := (h (n + j - b.term) (by omega)).weight u hd
    rwa [show k + (n + j - b.term) + 1 + b.term = k + n + 1 + j by omega] at hw
  · rfl

omit [DecidableEq User] in
theorem active_le_votes {D : Delegatee} {u : User} {k : ℕ} (h : b.delegate u k = some D) :
    b.active u k ≤ b.votes D k := by
  have := single_le_sum (f := fun u => if b.delegate u k = some D then b.active u k else 0)
    (fun _ _ => Nat.zero_le _) (mem_univ u)
  simpa [votes, h] using this

omit [DecidableEq User] in
theorem weight_le_expiring {D : Delegatee} {u : User} {j : ℕ}
    (h : b.delegate u (j - 1) = some D) : b.weight u j ≤ b.expiring D j := by
  have := single_le_sum (f := fun u => if b.delegate u (j - 1) = some D then b.weight u j else 0)
    (fun _ _ => Nat.zero_le _) (mem_univ u)
  simpa [expiring, h] using this

omit [DecidableEq User] in
/-- Each user's active weight counts for its delegatee, or for nobody. -/
theorem sum_votes_add [Fintype Delegatee] (k : ℕ) :
    ∑ D, b.votes D k + ∑ u with b.delegate u k = none, b.active u k = ∑ u, b.active u k := by
  unfold votes
  rw [sum_comm, sum_filter, ← sum_add_distrib]
  refine sum_congr rfl fun u _ => ?_
  cases hd : b.delegate u k with
  | none => simp
  | some D => simp

/-! ## Acquiring weight -/

/-- `u` acquires weight `x` that expires in week `j`. -/
def acquire (u : User) (j x : ℕ) : Ballot User Delegatee :=
  { b with weight := update b.weight u (update (b.weight u) j (b.weight u j + x)) }

omit [Fintype User] [DecidableEq Delegatee] in
@[simp] theorem term_acquire (u : User) (j x : ℕ) : (b.acquire u j x).term = b.term :=
  rfl

omit [Fintype User] [DecidableEq Delegatee] in
@[simp] theorem delegate_acquire (u : User) (j x : ℕ) : (b.acquire u j x).delegate = b.delegate :=
  rfl

omit [Fintype User] [DecidableEq Delegatee] in
theorem weight_acquire (u u' : User) (j i x : ℕ) : (b.acquire u j x).weight u' i =
    b.weight u' i + if u' = u ∧ i = j then x else 0 := by
  unfold acquire
  by_cases hu : u' = u
  · subst hu
    by_cases hi : i = j <;> simp [hi]
  · simp [hu]

omit [Fintype User] [DecidableEq Delegatee] in
theorem active_acquire (u u' : User) (j x k : ℕ) : (b.acquire u j x).active u' k =
    b.active u' k + if u' = u ∧ k < j ∧ j ≤ k + b.term then x else 0 := by
  unfold active
  show ∑ i ∈ range b.term, (b.acquire u j x).weight u' (k + 1 + i) = _
  simp only [weight_acquire, sum_add_distrib]
  congr 1
  by_cases hj : u' = u ∧ k < j ∧ j ≤ k + b.term
  · obtain ⟨hu, h1, h2⟩ := hj
    rw [if_pos ⟨hu, h1, h2⟩, sum_eq_single (j - (k + 1))]
    · rw [if_pos ⟨hu, by omega⟩]
    · exact fun i _ hi => if_neg fun h => hi (by omega)
    · exact fun h => absurd (mem_range.2 (by omega)) h
  · rw [if_neg hj]
    refine sum_eq_zero fun i hi => if_neg fun h => hj ⟨h.1, ?_⟩
    have := mem_range.1 hi
    omega

/-- A sum over the users of `D` after the summand of `u` grows by `x`. -/
theorem sum_delegated_add (k : ℕ) (D : Delegatee) (f : User → ℕ) (u : User) (P : Prop)
    [Decidable P] (x : ℕ) :
    (∑ u', if b.delegate u' k = some D then f u' + (if u' = u ∧ P then x else 0) else 0) =
      (∑ u', if b.delegate u' k = some D then f u' else 0) +
        if b.delegate u k = some D ∧ P then x else 0 := by
  have hsplit : ∀ u', (if b.delegate u' k = some D then
      f u' + (if u' = u ∧ P then x else 0) else 0) =
        (if b.delegate u' k = some D then f u' else 0) +
          if u' = u then if b.delegate u k = some D ∧ P then x else 0 else 0 := by
    intro u'
    by_cases hu : u' = u
    · subst hu
      by_cases hd : b.delegate u' k = some D <;> simp [hd]
    · simp [hu]
  rw [sum_congr rfl fun u' _ => hsplit u', sum_add_distrib, sum_ite_eq' univ u,
    if_pos (mem_univ u)]

/-- New weight counts for the delegatee of its user in the weeks before it expires. -/
theorem votes_acquire (u : User) (j x : ℕ) (D : Delegatee) (k : ℕ) :
    (b.acquire u j x).votes D k =
      b.votes D k + if b.delegate u k = some D ∧ k < j ∧ j ≤ k + b.term then x else 0 := by
  unfold votes
  simp only [active_acquire]
  exact b.sum_delegated_add k D (fun u' => b.active u' k) u _ x

/-- New weight expires for the delegatee of its user. -/
theorem expiring_acquire (u : User) (j x : ℕ) (D : Delegatee) (i : ℕ) :
    (b.acquire u j x).expiring D i =
      b.expiring D i + if b.delegate u (i - 1) = some D ∧ i = j then x else 0 := by
  unfold expiring
  simp only [weight_acquire]
  exact b.sum_delegated_add (i - 1) D (fun u' => b.weight u' i) u _ x

/-! ## Delegating -/

/-- `u` delegates to `D` from week `k` on. -/
def redelegate (u : User) (k : ℕ) (D : Delegatee) : Ballot User Delegatee :=
  { b with delegate := fun u' k' => if u' = u ∧ k ≤ k' then some D else b.delegate u' k' }

omit [Fintype User] [DecidableEq Delegatee] in
@[simp] theorem term_redelegate (u : User) (k : ℕ) (D : Delegatee) :
    (b.redelegate u k D).term = b.term :=
  rfl

omit [Fintype User] [DecidableEq Delegatee] in
@[simp] theorem weight_redelegate (u : User) (k : ℕ) (D : Delegatee) :
    (b.redelegate u k D).weight = b.weight :=
  rfl

omit [Fintype User] [DecidableEq Delegatee] in
theorem delegate_redelegate (u u' : User) (k k' : ℕ) (D : Delegatee) :
    (b.redelegate u k D).delegate u' k' = if u' = u ∧ k ≤ k' then some D else b.delegate u' k' :=
  rfl

/-- A sum over the users of `D'` before and after `u` moves to `D`. -/
theorem sum_redelegate (u : User) (k : ℕ) (D D' : Delegatee) (k' : ℕ) (f : User → ℕ) :
    (∑ u', if (b.redelegate u k D).delegate u' k' = some D' then f u' else 0) +
        (if k ≤ k' ∧ b.delegate u k' = some D' then f u else 0) =
      (∑ u', if b.delegate u' k' = some D' then f u' else 0) +
        if k ≤ k' ∧ D = D' then f u else 0 := by
  rw [← sum_erase_add univ _ (mem_univ u), ← sum_erase_add (s := univ) (a := u)
    (fun u' => if b.delegate u' k' = some D' then f u' else 0) (mem_univ u)]
  have hrest : ∑ u' ∈ univ.erase u,
      (if (b.redelegate u k D).delegate u' k' = some D' then f u' else 0) =
        ∑ u' ∈ univ.erase u, if b.delegate u' k' = some D' then f u' else 0 :=
    sum_congr rfl fun u' hu => by simp [delegate_redelegate, ne_of_mem_erase hu]
  rw [hrest, delegate_redelegate]
  by_cases hk : k ≤ k'
  · by_cases hD : D = D' <;> by_cases hu : b.delegate u k' = some D' <;> simp [hk, hD, hu]
  · simp [hk]

/-- A user that moves takes its active weight along from that week on. -/
theorem votes_redelegate (u : User) (k : ℕ) (D D' : Delegatee) (k' : ℕ) :
    (b.redelegate u k D).votes D' k' +
        (if k ≤ k' ∧ b.delegate u k' = some D' then b.active u k' else 0) =
      b.votes D' k' + if k ≤ k' ∧ D = D' then b.active u k' else 0 :=
  b.sum_redelegate u k D D' k' fun u' => b.active u' k'

/-- A user that moves takes along what expires later. -/
theorem expiring_redelegate (u : User) (k : ℕ) (D D' : Delegatee) (j : ℕ) :
    (b.redelegate u k D).expiring D' j +
        (if k ≤ j - 1 ∧ b.delegate u (j - 1) = some D' then b.weight u j else 0) =
      b.expiring D' j + if k ≤ j - 1 ∧ D = D' then b.weight u j else 0 :=
  b.sum_redelegate u k D D' (j - 1) fun u' => b.weight u' j

/-! ## Histories up to a week -/

/-- Two histories agree up to week `n`. -/
structure Agree (n : ℕ) (b b' : Ballot User Delegatee) : Prop where
  delegate : ∀ u, ∀ k ≤ n, b'.delegate u k = b.delegate u k
  active : ∀ u, ∀ k ≤ n, b'.active u k = b.active u k

omit [Fintype User] [DecidableEq User] [DecidableEq Delegatee] in
theorem Agree.refl (n : ℕ) (b : Ballot User Delegatee) : Agree n b b :=
  ⟨fun _ _ _ => rfl, fun _ _ _ => rfl⟩

omit [Fintype User] [DecidableEq User] [DecidableEq Delegatee] in
theorem Agree.mono {n m : ℕ} {b b' : Ballot User Delegatee} (h : Agree m b b') (hn : n ≤ m) :
    Agree n b b' :=
  ⟨fun u k hk => h.delegate u k (hk.trans hn), fun u k hk => h.active u k (hk.trans hn)⟩

omit [Fintype User] [DecidableEq User] [DecidableEq Delegatee] in
theorem Agree.trans {n : ℕ} {b b' b'' : Ballot User Delegatee} (h : Agree n b b')
    (h' : Agree n b' b'') : Agree n b b'' :=
  ⟨fun u k hk => (h'.delegate u k hk).trans (h.delegate u k hk),
    fun u k hk => (h'.active u k hk).trans (h.active u k hk)⟩

omit [DecidableEq User] in
/-- Histories that agree up to a week have the same votes up to it. -/
theorem Agree.votes_eq {n k : ℕ} {b b' : Ballot User Delegatee} (h : Agree n b b') (D : Delegatee)
    (hk : k ≤ n) : b'.votes D k = b.votes D k := by
  unfold votes
  simp only [h.delegate _ k hk, h.active _ k hk]

omit [Fintype User] [DecidableEq Delegatee] in
/-- New weight that expires more than a term after week `n` does not count up to week `n`. -/
theorem agree_acquire (u : User) {n j : ℕ} (x : ℕ) (h : n + b.term < j) :
    Agree n b (b.acquire u j x) := by
  refine ⟨fun u' k _ => by rw [delegate_acquire], fun u' k hk => ?_⟩
  rw [active_acquire, if_neg (by omega), Nat.add_zero]

omit [Fintype User] [DecidableEq Delegatee] in
/-- A delegation from after week `n` on does not matter up to week `n`. -/
theorem agree_redelegate (u : User) {n k : ℕ} (D : Delegatee) (h : n < k) :
    Agree n b (b.redelegate u k D) := by
  refine ⟨fun u' k' hk => ?_, fun u' k' _ => ?_⟩
  · rw [delegate_redelegate, if_neg (by omega)]
  · unfold active
    rw [term_redelegate, weight_redelegate]

-- to compare two histories, nothing should ever unfold their sums over all users
attribute [irreducible] active votes expiring acquire redelegate

end Ballot
