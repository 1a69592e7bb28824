import Aura.Evm.Loop

/-!
# Buffers

An array of a fixed size that a loop fills from the start, `xs[i++] = x`. `filled d m xs` is a
buffer of size `m` that holds `xs` and is zero behind them. Filling it with a list succeeds
exactly if the list fits (`foldlM_push`), and a loop whose rounds each push some entries
pushes all of them, one after the other (`foldlM_rounds`).
-/

namespace Evm

variable {α β : Type} {d x : α} {m n i : ℕ} {xs ys : List α}

/-- `xs[i++] = x`. -/
def push (r : List α × ℕ) (x : α) : Tx (List α × ℕ) := do
  let xs ← assign r.1 r.2 x
  .ok (xs, r.2 + 1)

/-- A buffer of size `m` that holds `xs`, with the index of the next entry. -/
def filled (d : α) (m : ℕ) (xs : List α) : List α × ℕ :=
  (xs ++ List.replicate (m - xs.length) d, xs.length)

theorem set_zero_append (xs ys : List α) (d x : α) :
    (xs ++ d :: ys).set xs.length x = xs ++ [x] ++ ys := by
  rw [List.set_append_right (h := le_rfl), Nat.sub_self, List.set_cons_zero, List.append_assoc]
  rfl

theorem push_filled (h : xs.length < m) :
    push (filled d m xs) x = .ok (filled d m (xs ++ [x])) := by
  have hrest : m - xs.length = m - (xs.length + 1) + 1 := by omega
  unfold push filled
  rw [hrest, List.replicate_succ, assign_of (by simp), ok_bind, set_zero_append]
  simp

theorem push_filled_full (h : xs.length = m) :
    push (filled d m xs) x = .error .outOfBounds := by
  unfold push filled assign
  rw [if_neg (by simp [h]), error_bind]

/-- Pushing a list succeeds exactly if there is room for it. -/
theorem foldlM_push : ∀ {ys xs : List α}, xs.length ≤ m →
    ys.foldlM push (filled d m xs) =
      if xs.length + ys.length ≤ m then .ok (filled d m (xs ++ ys)) else .error .outOfBounds
  | [], xs, h => by
    rw [List.length_nil, Nat.add_zero, if_pos h, List.append_nil]
    rfl
  | y :: ys, xs, h => by
    rw [List.foldlM_cons]
    rcases Nat.lt_or_ge xs.length m with hlt | hge
    · rw [push_filled hlt, ok_bind, foldlM_push (by simpa using Nat.succ_le_of_lt hlt)]
      simp only [List.append_assoc, List.length_append, List.length_cons, List.length_nil,
        List.singleton_append, Nat.add_assoc, Nat.zero_add, Nat.add_comm 1]
    · rw [push_filled_full (by omega), error_bind, if_neg (by rw [List.length_cons]; omega)]

/-- A loop each of whose rounds pushes some entries. -/
theorem foldlM_rounds {body : List α × ℕ → β → Tx (List α × ℕ)} {out : β → List α} :
    ∀ {l : List β}, (∀ b ∈ l, ∀ r, body r b = (out b).foldlM push r) →
      ∀ r, l.foldlM body r = (l.flatMap out).foldlM push r
  | [], _, _ => rfl
  | b :: l, h, r => by
    rw [List.foldlM_cons, List.flatMap_cons, List.foldlM_append, h b (by simp) r]
    exact congrArg _ (funext fun r => foldlM_rounds (fun b hb => h b (by simp [hb])) r)

/-- `for (i = start; i < xs.length; i++)`, where every round reads `xs[i]`. -/
theorem foldlM_index {σ : Type} {f : σ → ℕ → α → Tx σ} : ∀ {n start : ℕ},
    start + n = xs.length → ∀ s, (List.range' start n).foldlM (fun s i => do
      let x ← index xs i
      f s i x) s = (xs.zipIdx.drop start).foldlM (fun s p => f s p.2 p.1) s
  | 0, start, h, s => by
    rw [List.drop_of_length_le (by rw [List.length_zipIdx]; omega)]
    rfl
  | n + 1, start, h, s => by
    have hlt : start < xs.length := by omega
    have hx : index xs start = .ok xs[start] := index_eq_ok.2 (List.getElem?_eq_getElem hlt)
    have hdrop : xs.zipIdx.drop start = (xs[start], start) :: xs.zipIdx.drop (start + 1) := by
      rw [List.drop_eq_getElem_cons (by rwa [List.length_zipIdx]), List.getElem_zipIdx,
        Nat.zero_add]
    rw [List.range'_succ, List.foldlM_cons, hdrop, List.foldlM_cons, hx, ok_bind]
    exact congrArg _ (funext fun s => foldlM_index (by omega) s)

/-- `for (i = 0; i < n; i++) ys[i] = xs[i]`, from a new array `ys`. -/
def copy (d : α) (xs : List α) (n : ℕ) : Tx (List α) :=
  (List.range n).foldlM (fun ys i => do
    let x ← index xs i
    assign ys i x) (List.replicate n d)

/-- After `k` rounds. -/
theorem copy_rounds (h : n ≤ xs.length) : ∀ {k : ℕ}, k ≤ n →
    (List.range k).foldlM (fun ys i => do
      let x ← index xs i
      assign ys i x) (List.replicate n d) = .ok (xs.take k ++ List.replicate (n - k) d)
  | 0, _ => by simp
  | k + 1, hk => by
    have hlt : k < xs.length := by omega
    have hx : index xs k = .ok xs[k] := index_eq_ok.2 (List.getElem?_eq_getElem hlt)
    have hlen : (xs.take k).length = k := List.length_take_of_le hlt.le
    have hrest : n - k = n - (k + 1) + 1 := by omega
    have hset := set_zero_append (xs.take k) (List.replicate (n - (k + 1)) d) d xs[k]
    rw [hlen] at hset
    rw [List.range_succ, List.foldlM_append, copy_rounds h (Nat.le_of_succ_le hk), ok_bind,
      List.foldlM_cons, hx, ok_bind, hrest, List.replicate_succ,
      assign_of (by rw [List.length_append, hlen, List.length_cons]; omega), ok_bind, hset,
      List.take_succ_eq_append_getElem hlt]
    rfl

/-- A prefix is copied. -/
theorem copy_of (h : n ≤ xs.length) : copy d xs n = .ok (xs.take n) := by
  unfold copy
  rw [copy_rounds h le_rfl, Nat.sub_self, List.replicate_zero, List.append_nil]

end Evm
