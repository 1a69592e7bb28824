import Aura.Evm.Erc20

/-!
# Writes to a mapping

A list of writes, each of a value to a key, leaves a mapping with the last value of every
key. Its values add up to at most what was written, and to all of it exactly if no key was
written twice (`sum_written_eq_iff`), provided that no value is zero.

If no value is lowered after one was raised, the mapping is never above both the first and
the last (`written_take_le`).
-/

open Finset Function

namespace Writes

variable {K : Type} [DecidableEq K]

/-- The mapping after the writes, in their order. -/
def written (f : K → ℕ) (writes : List (K × ℕ)) : K → ℕ :=
  writes.foldl (fun f x => update f x.1 x.2) f

@[simp] theorem written_nil (f : K → ℕ) : written f [] = f :=
  rfl

theorem written_append (f : K → ℕ) (l m : List (K × ℕ)) :
    written f (l ++ m) = written (written f l) m :=
  List.foldl_append

theorem written_snoc (f : K → ℕ) (l : List (K × ℕ)) (x : K × ℕ) :
    written f (l ++ [x]) = update (written f l) x.1 x.2 := by
  rw [written_append]
  rfl

/-- A key that is not written. -/
theorem written_of_notMem (f : K → ℕ) {k : K} :
    ∀ {l : List (K × ℕ)}, k ∉ l.map Prod.fst → written f l k = f k := by
  intro l
  induction l using List.reverseRecOn with
  | nil => exact fun _ => rfl
  | append_singleton l x ih =>
    intro hk
    rw [List.map_append, List.mem_append, not_or] at hk
    have hne : k ≠ x.1 := fun h => hk.2 (List.mem_singleton.2 h)
    rw [written_snoc, update_of_ne hne, ih hk.1]

/-- A key that is written has one of the values. -/
theorem written_ne_zero {f : K → ℕ} {k : K} :
    ∀ {l : List (K × ℕ)}, (∀ x ∈ l, x.2 ≠ 0) → k ∈ l.map Prod.fst → written f l k ≠ 0 := by
  intro l
  induction l using List.reverseRecOn with
  | nil => exact fun _ hk => absurd hk List.not_mem_nil
  | append_singleton l x ih =>
    intro hpos hk
    rw [written_snoc]
    by_cases hx : k = x.1
    · rw [hx, update_self]
      exact hpos x (by simp)
    · rw [update_of_ne hx]
      rw [List.map_append, List.mem_append] at hk
      exact ih (fun y hy => hpos y (List.mem_append_left _ hy))
        (hk.resolve_right fun h => hx (List.mem_singleton.1 h))

/-- A key that is written once has its value. -/
theorem written_of_mem {f : K → ℕ} {x : K × ℕ} :
    ∀ {l : List (K × ℕ)}, (l.map Prod.fst).Nodup → x ∈ l → written f l x.1 = x.2 := by
  intro l
  induction l using List.reverseRecOn with
  | nil => exact fun _ hx => absurd hx List.not_mem_nil
  | append_singleton l y ih =>
    intro hnodup hx
    rw [List.map_append, List.nodup_append] at hnodup
    obtain ⟨hl, -, hne⟩ := hnodup
    rw [written_snoc]
    rcases List.mem_append.1 hx with hx | hx
    · have hxy : x.1 ≠ y.1 := hne _ (List.mem_map_of_mem hx) _ (List.mem_singleton.2 rfl)
      rw [update_of_ne hxy, ih hl hx]
    · rw [List.mem_singleton.1 hx, update_self]

/-! ## Lowering, then raising -/

/-- Lowering values. -/
theorem written_le {f : K → ℕ} {l : List (K × ℕ)} (hnodup : (l.map Prod.fst).Nodup)
    (h : ∀ x ∈ l, x.2 ≤ f x.1) : written f l ≤ f := by
  intro k
  by_cases hk : k ∈ l.map Prod.fst
  · obtain ⟨x, hx, rfl⟩ := List.mem_map.1 hk
    rw [written_of_mem hnodup hx]
    exact h x hx
  · rw [written_of_notMem f hk]

/-- Raising values that were not written before. -/
theorem le_written_append {f : K → ℕ} {l m : List (K × ℕ)}
    (hnodup : ((l ++ m).map Prod.fst).Nodup) (h : ∀ x ∈ m, f x.1 ≤ x.2) :
    written f l ≤ written f (l ++ m) := by
  intro k
  rw [List.map_append, List.nodup_append] at hnodup
  obtain ⟨-, hm, hne⟩ := hnodup
  rw [written_append]
  by_cases hk : k ∈ m.map Prod.fst
  · obtain ⟨x, hx, rfl⟩ := List.mem_map.1 hk
    have hnew : x.1 ∉ l.map Prod.fst := fun hx' => hne _ hx' _ hk rfl
    rw [written_of_mem hm hx, written_of_notMem f hnew]
    exact h x hx
  · rw [written_of_notMem _ hk]

/-- Up to the first value that is raised the mapping is below the first, and from then on it
is below the last. -/
theorem written_take_le {f : K → ℕ} {l : List (K × ℕ)} (hnodup : (l.map Prod.fst).Nodup)
    (h : l.Pairwise fun x y => f x.1 < x.2 → f y.1 ≤ y.2) (n : ℕ) :
    written f (l.take n) ≤ f ∨ written f (l.take n) ≤ written f l := by
  have hsplit := List.take_append_drop n l
  by_cases hraise : ∃ x ∈ l.take n, f x.1 < x.2
  · obtain ⟨x, hx, hlt⟩ := hraise
    refine .inr ?_
    rw [← hsplit, List.pairwise_append] at h
    have hle := le_written_append (hsplit.symm ▸ hnodup) fun y hy => h.2.2 x hx y hy hlt
    rwa [hsplit] at hle
  · refine .inl (written_le ?_ fun x hx => not_lt.1 fun hlt => hraise ⟨x, hx, hlt⟩)
    exact hnodup.sublist ((List.take_sublist n l).map Prod.fst)

/-! ## Sums -/

omit [DecidableEq K] in
theorem sum_map_snoc (l : List (K × ℕ)) (x : K × ℕ) :
    ((l ++ [x]).map Prod.snd).sum = (l.map Prod.snd).sum + x.2 := by
  simp

omit [DecidableEq K] in
theorem nodup_snoc (l : List (K × ℕ)) (x : K × ℕ) :
    ((l ++ [x]).map Prod.fst).Nodup ↔ (l.map Prod.fst).Nodup ∧ x.1 ∉ l.map Prod.fst := by
  rw [List.map_append, List.map_singleton, List.nodup_append]
  simp only [List.nodup_singleton, List.mem_singleton, true_and, and_congr_right_iff]
  exact fun _ => ⟨fun h hx => h _ hx _ rfl rfl, fun h a ha b hb hab => h (hb ▸ hab ▸ ha)⟩

variable [Fintype K]

theorem sum_written_snoc (l : List (K × ℕ)) (x : K × ℕ) :
    ∑ k, written (fun _ => 0) (l ++ [x]) k + written (fun _ => 0) l x.1 =
      ∑ k, written (fun _ => 0) l k + x.2 := by
  rw [written_snoc]
  exact Evm.sum_update_add _ x.1 x.2

/-- What is overwritten is lost. -/
theorem sum_written_le (l : List (K × ℕ)) :
    ∑ k, written (fun _ => 0) l k ≤ (l.map Prod.snd).sum := by
  induction l using List.reverseRecOn with
  | nil => simp
  | append_singleton l x ih =>
    have hsum := sum_written_snoc l x
    rw [sum_map_snoc]
    omega

/-- Nothing is lost exactly if no key is written twice. -/
theorem sum_written_eq_iff {l : List (K × ℕ)} (hpos : ∀ x ∈ l, x.2 ≠ 0) :
    ∑ k, written (fun _ => 0) l k = (l.map Prod.snd).sum ↔ (l.map Prod.fst).Nodup := by
  induction l using List.reverseRecOn with
  | nil => simp
  | append_singleton l x ih =>
    have hpos' : ∀ y ∈ l, y.2 ≠ 0 := fun y hy => hpos y (List.mem_append_left _ hy)
    have hsum := sum_written_snoc l x
    have hle := sum_written_le l
    rw [nodup_snoc, ← ih hpos', sum_map_snoc]
    constructor
    · intro h
      have hzero : written (fun _ => 0) l x.1 = 0 := by omega
      exact ⟨by omega, fun hx => written_ne_zero hpos' hx hzero⟩
    · rintro ⟨h, hx⟩
      have hzero := written_of_notMem (fun _ => 0) hx
      omega

end Writes
