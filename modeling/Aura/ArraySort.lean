import Mathlib.Data.List.Induction
import Mathlib.Data.List.Sort
import Mathlib.Tactic.Common

/-!
# Sorting arrays

A sort is called with a comparison that returns a number. What it does with a comparison by a
key is `OrdersBy`. A comparison that reads its first argument alone is no order; a sort that
inserts from the left moves to the front what it calls less, and leaves the others in their
order (`MovesToFront`). After one and then the other, the others are ordered by the key
(`MovesToFront.ordered`).

`sort` inserts from the left, and does both.
-/

namespace ArraySort

variable {α : Type}

/-- `l'` is `l` in the order of a key. -/
structure OrdersBy (key : α → ℤ) (l l' : List α) : Prop where
  perm : l'.Perm l
  ordered : l'.Pairwise fun a b => key a ≤ key b

/-- `l'` is `l` with what satisfies `p` in front, and the others in their order. -/
structure MovesToFront (p : α → Bool) (l l' : List α) : Prop where
  perm : l'.Perm l
  front : l'.Pairwise fun a b => p b = true → p a = true
  others : (l'.filter fun a => !p a) = l.filter fun a => !p a

variable {key : α → ℤ} {p : α → Bool} {a : α} {l l₁ l₂ : List α}

/-- What is not moved to the front stays ordered, and nothing follows it but the like. -/
theorem MovesToFront.ordered (h : MovesToFront p l₁ l₂) (h₁ : OrdersBy key l l₁) :
    l₂.Pairwise fun a b => p a = false → p b = false ∧ key a ≤ key b := by
  have hkeys : (l₂.filter fun a => !p a).Pairwise fun a b => key a ≤ key b := by
    rw [h.others]
    exact h₁.ordered.sublist List.filter_sublist
  rw [List.pairwise_filter] at hkeys
  refine (h.front.and hkeys).imp fun {a b} ⟨hfront, hkey⟩ ha => ?_
  have hb : p b = false := by
    cases hpb : p b with
    | false => rfl
    | true => exact (hfront hpb).symm.trans ha
  exact ⟨hb, hkey (by simp [ha]) (by simp [hb])⟩

/-! ## Insertion -/

/-- Insertion from the left : before the first element that the new one is less than. -/
def sort (cmp : α → α → ℤ) (l : List α) : List α :=
  l.reverse.insertionSort fun a b => cmp a b < 0

theorem sort_snoc (cmp : α → α → ℤ) (l : List α) (a : α) :
    sort cmp (l ++ [a]) = (sort cmp l).orderedInsert (fun a b => cmp a b < 0) a := by
  unfold sort
  rw [List.reverse_append]
  rfl

theorem sort_perm (cmp : α → α → ℤ) (l : List α) : (sort cmp l).Perm l :=
  (List.perm_insertionSort _ _).trans l.reverse_perm

/-- A smaller key goes before the first that is larger. -/
theorem insert_ordered (a : α) : ∀ {l : List α}, (l.Pairwise fun a b => key a ≤ key b) →
    (l.orderedInsert (fun a b => key a - key b < 0) a).Pairwise fun a b => key a ≤ key b
  | [], _ => List.pairwise_singleton _ _
  | b :: l, h => by
    obtain ⟨hb, hl⟩ := List.pairwise_cons.1 h
    rw [List.orderedInsert_cons]
    split_ifs with hlt
    · refine List.pairwise_cons.2 ⟨fun c hc => ?_, h⟩
      rcases List.mem_cons.1 hc with rfl | hc
      · omega
      · have := hb c hc
        omega
    · refine List.pairwise_cons.2 ⟨fun c hc => ?_, insert_ordered a hl⟩
      rcases (List.mem_orderedInsert _).1 hc with rfl | hc
      · omega
      · exact hb c hc

theorem sort_ordersBy (key : α → ℤ) (l : List α) :
    OrdersBy key l (sort (fun a b => key a - key b) l) := by
  refine ⟨sort_perm _ l, ?_⟩
  induction l using List.reverseRecOn with
  | nil => exact List.Pairwise.nil
  | append_singleton l a ih =>
    rw [sort_snoc]
    exact insert_ordered a ih

/-- What is called less goes to the very front, the rest to the end. -/
theorem sort_first (p : α → Bool) (l : List α) :
    sort (fun a _ => if p a = true then -1 else 1) l =
      (l.filter p).reverse ++ l.filter fun a => !p a := by
  have hlast : ∀ {a : α}, ¬p a = true → ∀ l : List α,
      l.orderedInsert (fun a _ => (if p a = true then -1 else 1 : ℤ) < 0) a = l ++ [a] := by
    intro a ha l
    induction l with
    | nil => rfl
    | cons b l ih => rw [List.orderedInsert_cons, if_neg (by simp [ha]), ih, List.cons_append]
  induction l using List.reverseRecOn with
  | nil => rfl
  | append_singleton l a ih =>
    rw [sort_snoc, ih, List.filter_append, List.filter_append]
    by_cases ha : p a = true
    · have hfirst : ∀ l : List α,
          l.orderedInsert (fun a _ => (if p a = true then -1 else 1 : ℤ) < 0) a = a :: l := by
        intro l
        cases l with
        | nil => rfl
        | cons b l => exact List.orderedInsert_cons_of_le _ _ (by simp [ha])
      simp [hfirst, ha]
    · simp [hlast ha, ha]

theorem sort_movesToFront (p : α → Bool) (l : List α) :
    MovesToFront p l (sort (fun a _ => if p a = true then -1 else 1) l) := by
  refine ⟨sort_perm _ l, ?_, ?_⟩
  · rw [sort_first, List.pairwise_append]
    refine ⟨List.pairwise_of_forall_mem_list fun a ha b _ _ => ?_,
      List.pairwise_of_forall_mem_list fun a _ b hb hp => ?_, fun a ha b _ _ => ?_⟩
    · exact List.of_mem_filter (List.mem_reverse.1 ha)
    · have := List.of_mem_filter hb
      simp [hp] at this
    · exact List.of_mem_filter (List.mem_reverse.1 ha)
  · rw [sort_first, List.filter_append, List.filter_filter]
    simp [List.filter_filter]

end ArraySort
