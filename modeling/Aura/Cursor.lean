import Mathlib.Data.List.Basic
import Mathlib.Algebra.BigOperators.Group.List.Basic
import Mathlib.Algebra.BigOperators.Ring.Finset
import Mathlib.Algebra.Order.BigOperators.Group.Finset
import Mathlib.Algebra.Order.BigOperators.Group.List

/-!
# Reading an increasing list with a cursor

The entries of an increasing list that lie below a bound are a prefix of it, `due`. A
reader takes what is due from its cursor on and moves the cursor to the end of that. What
it has read is then a prefix of the list, whatever the bounds at which it has read.

Of many readers each takes its own share of every entry. What is left to read is covered by
what was put in and not read, as long as the shares of an entry add up to no more than what
was put in for it (`sum_drop_le`).
-/

open Finset Function

namespace Cursor

variable {m m' c : ℕ} {es : List ℕ}

/-- The entries below `m`. -/
def due (m : ℕ) (es : List ℕ) : List ℕ :=
  es.filter fun e => decide (e < m)

theorem mem_due {e : ℕ} : e ∈ due m es ↔ e ∈ es ∧ e < m := by
  simp [due]

theorem due_cons_of_lt {e : ℕ} (h : e < m) : due m (e :: es) = e :: due m es := by
  simp [due, h]

theorem due_eq_nil (h : ∀ e ∈ es, m ≤ e) : due m es = [] := by
  rw [due, List.filter_eq_nil_iff]
  intro e he
  simpa using h e he

/-- Once an entry is not due, none after it is. -/
theorem due_cons_of_le {e : ℕ} (hs : (e :: es).Pairwise (· < ·)) (h : m ≤ e) :
    due m (e :: es) = [] :=
  due_eq_nil fun x hx => by
    rcases List.mem_cons.1 hx with rfl | hx
    · exact h
    · exact h.trans (List.rel_of_pairwise_cons hs hx).le

/-- What is due from a cursor on. -/
theorem due_drop (hs : es.Pairwise (· < ·)) (c : ℕ) : due m (es.drop c) = (due m es).drop c := by
  induction es generalizing c with
  | nil => simp [due]
  | cons e es ih =>
    cases c with
    | zero => rfl
    | succ c =>
      rw [List.drop_succ_cons, ih (List.Pairwise.of_cons hs)]
      rcases lt_or_ge e m with h | h
      · rw [due_cons_of_lt h, List.drop_succ_cons]
      · have hnil : due m es = [] := due_eq_nil fun x hx =>
          h.trans (List.rel_of_pairwise_cons hs hx).le
        rw [due_cons_of_le hs h, hnil, List.drop_nil, List.drop_nil]

/-- What is due is a prefix. -/
theorem due_eq_take (hs : es.Pairwise (· < ·)) : due m es = es.take (due m es).length := by
  induction es with
  | nil => rfl
  | cons e es ih =>
    rcases lt_or_ge e m with h | h
    · rw [due_cons_of_lt h, List.length_cons, List.take_succ_cons, ← ih (List.Pairwise.of_cons hs)]
    · rw [due_cons_of_le hs h]
      rfl

/-- A cursor within what is due has read what was due. -/
theorem take_eq (hs : es.Pairwise (· < ·)) (hc : c ≤ (due m es).length) :
    es.take c = (due m es).take c := by
  rw [due_eq_take hs, List.take_take, Nat.min_eq_left hc]

theorem length_due_le_length : (due m es).length ≤ es.length :=
  List.length_filter_le _ _

/-- More is due at a later bound. -/
theorem length_due_mono (h : m ≤ m') : (due m es).length ≤ (due m' es).length :=
  (List.monotone_filter_right es fun e he => by
    simp only [decide_eq_true_eq] at he ⊢
    omega).length_le

theorem length_due_append (fs : List ℕ) : (due m es).length ≤ (due m (es ++ fs)).length := by
  rw [due, due, List.filter_append, List.length_append]
  exact Nat.le_add_right _ _

/-! ## Sums -/

variable (g : ℕ → ℕ)

/-- The sum of the entries before the cursor and of those from it on. -/
theorem sum_take_add_drop (xs : List ℕ) (c : ℕ) :
    ((xs.take c).map g).sum + ((xs.drop c).map g).sum = (xs.map g).sum := by
  rw [← List.sum_append, ← List.map_append, List.take_append_drop]

/-- What is due adds up over all entries below the bound, if the others count nothing. -/
theorem sum_due {g : ℕ → ℕ} (hs : es.Pairwise (· < ·)) (h : ∀ e, e ∉ es → g e = 0) :
    ((due m es).map g).sum = ∑ e ∈ range m, g e := by
  have hnodup : (due m es).Nodup := (hs.imp fun hlt => ne_of_lt hlt).filter _
  rw [← List.sum_toFinset g hnodup]
  refine sum_subset (fun e he => ?_) fun e he hnot => ?_
  · exact mem_range.2 (mem_due.1 (List.mem_toFinset.1 he)).2
  · refine h e fun hmem => hnot (List.mem_toFinset.2 (mem_due.2 ⟨hmem, mem_range.1 he⟩))

/-- Moving a cursor on reads no less. -/
theorem sum_take_mono (xs : List ℕ) {d : ℕ} (h : c ≤ d) :
    ((xs.take c).map g).sum ≤ ((xs.take d).map g).sum := by
  obtain ⟨k, rfl⟩ := Nat.exists_eq_add_of_le h
  rw [List.take_add, List.map_append, List.sum_append]
  exact Nat.le_add_right _ _

/-- Adding to one entry of a list without duplicates. -/
theorem sum_map_update {e : ℕ} (n : ℕ) :
    ∀ {xs : List ℕ}, xs.Nodup → e ∈ xs → (xs.map (update g e (g e + n))).sum = (xs.map g).sum + n
  | x :: xs, hnd, he => by
    obtain ⟨hx, hnd⟩ := List.nodup_cons.1 hnd
    simp only [List.map_cons, List.sum_cons]
    by_cases hxe : e = x
    · subst hxe
      rw [update_self,
        List.map_congr_left fun y hy => update_of_ne (ne_of_mem_of_not_mem hy hx) _ g]
      omega
    · have hmem : e ∈ xs := (List.mem_cons.1 he).resolve_left hxe
      rw [update_of_ne (Ne.symm hxe), sum_map_update n hnd hmem]
      omega

/-! ## Many readers -/

section Readers

variable {ι : Type} [Fintype ι]

theorem sum_map_comm (f : ι → ℕ → ℕ) :
    ∀ xs : List ℕ, ∑ i, (xs.map (f i)).sum = (xs.map fun e => ∑ i, f i e).sum
  | [] => by simp
  | x :: xs => by
    simp only [List.map_cons, List.sum_cons, sum_add_distrib, sum_map_comm f xs]

theorem sum_drop_le {f : ι → ℕ → ℕ} {F : ℕ → ℕ} {cs : ι → ℕ} {b : ℕ}
    (hF : ∀ e ∈ es, ∑ i, f i e ≤ F e)
    (hb : (es.map F).sum ≤ b + ∑ i, ((es.take (cs i)).map (f i)).sum) :
    ∑ i, ((es.drop (cs i)).map (f i)).sum ≤ b := by
  have htotal : ∑ i, ((es.take (cs i)).map (f i)).sum + ∑ i, ((es.drop (cs i)).map (f i)).sum =
      (es.map fun e => ∑ i, f i e).sum := by
    rw [← sum_add_distrib, ← sum_map_comm]
    exact sum_congr rfl fun i _ => sum_take_add_drop (f i) es (cs i)
  have hle : (es.map fun e => ∑ i, f i e).sum ≤ (es.map F).sum := List.sum_le_sum hF
  omega

/-- One summand grows by `n` and none shrinks. -/
theorem sum_add_le [DecidableEq ι] {f f' : ι → ℕ} {n : ℕ} (i : ι) (hi : f i + n ≤ f' i)
    (h : ∀ j, j ≠ i → f j ≤ f' j) : ∑ j, f j + n ≤ ∑ j, f' j := by
  rw [← add_sum_erase _ f (mem_univ i), ← add_sum_erase _ f' (mem_univ i)]
  have hrest : ∑ j ∈ univ.erase i, f j ≤ ∑ j ∈ univ.erase i, f' j :=
    sum_le_sum fun j hj => h j (ne_of_mem_erase hj)
  omega

end Readers

end Cursor
