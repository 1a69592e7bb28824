import Aura.Evm.Tx

/-!
# Loops

`loop fuel cond body s` is `while (cond) { body }` from the loop state `s`, cut off after
`fuel` rounds with `outOfGas`. Two rules reason about it. `loop_total` is total
correctness : an invariant and a variant that every round lowers give a result with the
invariant and the negated condition, provided the fuel covers the variant. `loop_partial`
takes a result apart when termination is not in question.

`sumDown` is the sum a loop accumulates when it walks a grid of step `w` downwards. It
is what the two walks over scheduled expiries compute (`loop_sumDown`, `loop_subDown`).
-/

namespace Evm

variable {σ : Type}

/-- `while (cond s) { s = body s }`, at most `fuel` rounds. -/
def loop : ℕ → (σ → Bool) → (σ → Tx σ) → σ → Tx σ
  | 0, cond, _, s => if cond s then .error .outOfGas else .ok s
  | fuel + 1, cond, body, s =>
    if cond s then body s >>= loop fuel cond body else .ok s

theorem loop_of_not {cond : σ → Bool} {body : σ → Tx σ} {s : σ} (fuel : ℕ) (h : cond s = false) :
    loop fuel cond body s = .ok s := by
  cases fuel <;> simp [loop, h]

theorem loop_succ {cond : σ → Bool} {body : σ → Tx σ} {s : σ} (fuel : ℕ) (h : cond s = true) :
    loop (fuel + 1) cond body s = body s >>= loop fuel cond body := by
  simp [loop, h]

/-- Total correctness : the body keeps `I` and lowers `μ`. -/
theorem loop_total {cond : σ → Bool} {body : σ → Tx σ} (I : σ → Prop) (μ : σ → ℕ)
    (hbody : ∀ s, I s → cond s = true → ∃ s', body s = .ok s' ∧ I s' ∧ μ s' < μ s) :
    ∀ (fuel : ℕ) (s : σ), I s → μ s ≤ fuel →
      ∃ s', loop fuel cond body s = .ok s' ∧ I s' ∧ cond s' = false
  | fuel, s, hI, hμ => by
    cases hc : cond s with
    | false => exact ⟨s, loop_of_not fuel hc, hI, hc⟩
    | true =>
      obtain ⟨s', hs', hI', hlt⟩ := hbody s hI hc
      cases fuel with
      | zero => omega
      | succ fuel =>
        obtain ⟨r, hr, hIr, hcr⟩ := loop_total I μ hbody fuel s' hI' (by omega)
        exact ⟨r, by rw [loop_succ fuel hc, hs', ok_bind, hr], hIr, hcr⟩

/-- Partial correctness : whatever every round keeps holds of the result. -/
theorem loop_partial {cond : σ → Bool} {body : σ → Tx σ} (I : σ → Prop)
    (hbody : ∀ s s', I s → cond s = true → body s = .ok s' → I s') :
    ∀ (fuel : ℕ) (s r : σ), I s → loop fuel cond body s = .ok r → I r ∧ cond r = false
  | fuel, s, r, hI, h => by
    cases hc : cond s with
    | false =>
      rw [loop_of_not fuel hc] at h
      cases h
      exact ⟨hI, hc⟩
    | true =>
      cases fuel with
      | zero => simp [loop, hc] at h
      | succ fuel =>
        rw [loop_succ fuel hc] at h
        obtain ⟨s', hs', h⟩ := bind_eq_ok.1 h
        exact loop_partial I hbody fuel s' r (hbody s s' hI hc hs') h

/-- A loop fails with `e` only if some round does, or it is cut off. -/
theorem loop_ne_error {cond : σ → Bool} {body : σ → Tx σ} {e : Revert} (he : e ≠ .outOfGas)
    (hbody : ∀ s, cond s = true → body s ≠ .error e) :
    ∀ (fuel : ℕ) (s : σ), loop fuel cond body s ≠ .error e
  | fuel, s => by
    cases hc : cond s with
    | false => rw [loop_of_not fuel hc]; simp
    | true =>
      cases fuel with
      | zero => simpa [loop, hc] using he.symm
      | succ fuel =>
        rw [loop_succ fuel hc, Ne, bind_eq_error]
        rintro (h | ⟨s', -, h⟩)
        · exact hbody s hc h
        · exact loop_ne_error he hbody fuel s' h

/-- A loop fails with no reason that no round fails with. -/
theorem avoids_loop {cond : σ → Bool} {body : σ → Tx σ} {msg : String}
    (hbody : ∀ s, Avoids msg (body s)) (fuel : ℕ) (s : σ) : Avoids msg (loop fuel cond body s) :=
  loop_ne_error (by simp) (fun s _ => hbody s) fuel s

/-- A property that every round of a monadic fold keeps. -/
theorem foldlM_keeps {α σ : Type} {f : σ → α → Tx σ} (P : σ → Prop) :
    ∀ {xs : List α} {s s' : σ}, (∀ x ∈ xs, ∀ s s', P s → f s x = .ok s' → P s') → P s →
      xs.foldlM f s = .ok s' → P s'
  | [], s, s', _, hP, h => by
    cases h
    exact hP
  | x :: xs, s, s', hf, hP, h => by
    rw [List.foldlM_cons] at h
    obtain ⟨s₁, h₁, h⟩ := bind_eq_ok.1 h
    exact foldlM_keeps P (fun y hy => hf y (by simp [hy])) (hf x (by simp) s s₁ hP h₁) h

/-- What every round of a monadic fold establishes for its entry and keeps for the others. -/
theorem foldlM_each {α σ : Type} {f : σ → α → Tx σ} {P : α → σ → Prop}
    (hf : ∀ x s s', f s x = .ok s' → P x s')
    (hk : ∀ x y s s', P x s → f s y = .ok s' → P x s') :
    ∀ {xs : List α} {s s' : σ}, xs.foldlM f s = .ok s' → ∀ x ∈ xs, P x s'
  | y :: xs, s, s', h, x, hm => by
    rw [List.foldlM_cons] at h
    obtain ⟨s₁, h₁, h₂⟩ := bind_eq_ok.1 h
    rcases List.mem_cons.1 hm with rfl | hm
    · exact foldlM_keeps (P x) (fun y _ => hk x y) (hf x s s₁ h₁) h₂
    · exact foldlM_each hf hk h₂ x hm

/-- A monadic fold returns when every round does from a state of `I`, which it keeps. -/
theorem foldlM_total {α σ : Type} {f : σ → α → Tx σ} (I : σ → Prop) :
    ∀ {xs : List α} {s : σ}, (∀ x ∈ xs, ∀ s, I s → ∃ s', f s x = .ok s' ∧ I s') → I s →
      ∃ s', xs.foldlM f s = .ok s' ∧ I s'
  | [], s, _, hI => ⟨s, rfl, hI⟩
  | x :: xs, s, hf, hI => by
    obtain ⟨s₁, h₁, hI₁⟩ := hf x (by simp) s hI
    obtain ⟨s', hs', hI'⟩ := foldlM_total I (fun y hy => hf y (List.mem_cons_of_mem x hy)) hI₁
    exact ⟨s', by rw [List.foldlM_cons, h₁, ok_bind, hs'], hI'⟩

/-- A monadic map returns when every entry does. -/
theorem mapM_of {α β : Type} {f : α → Tx β} {g : α → β} :
    ∀ {xs : List α}, (∀ x ∈ xs, f x = .ok (g x)) → xs.mapM f = .ok (xs.map g)
  | [], _ => rfl
  | x :: xs, h => by
    rw [List.mapM_cons, h x (by simp), ok_bind, mapM_of fun y hy => h y (by simp [hy]), ok_bind]
    rfl

/-- A monadic map that returns, of a function that checks `P` and returns `g`. -/
theorem map_of_mapM {α β : Type} {f : α → Tx β} {g : α → β} {P : α → Prop}
    (hf : ∀ x y, f x = .ok y → P x ∧ y = g x) :
    ∀ {xs : List α} {ys : List β}, xs.mapM f = .ok ys → (∀ x ∈ xs, P x) ∧ ys = xs.map g
  | [], ys, h => by
    cases h
    exact ⟨nofun, rfl⟩
  | x :: xs, ys, h => by
    rw [List.mapM_cons] at h
    obtain ⟨y, hy, h⟩ := bind_eq_ok.1 h
    obtain ⟨ys', hys, h⟩ := bind_eq_ok.1 h
    cases h
    obtain ⟨hx, rfl⟩ := hf x y hy
    obtain ⟨hxs, rfl⟩ := map_of_mapM hf hys
    exact ⟨List.forall_mem_cons.2 ⟨hx, hxs⟩, rfl⟩

/-! ## Walking a grid downwards -/

/-- `f e + f (e - w) + ⋯`, `n` terms from `e = (k + n) · w` down to `(k + 1) · w`. -/
def sumDown (f : ℕ → ℕ) (w k : ℕ) : ℕ → ℕ
  | 0 => 0
  | n + 1 => f ((k + (n + 1)) * w) + sumDown f w k n

/-- A round of a walk from `(k + n + 1) · w` : the rest of it starts from `(k + n) · w`. -/
theorem loop_down_succ {g : ℕ → ℕ → Tx ℕ} {w k n acc acc' : ℕ} (hw : 0 < w) (fuel : ℕ)
    (hg : g acc ((k + (n + 1)) * w) = .ok acc') :
    loop (fuel + 1) (fun s : ℕ × ℕ => decide (k * w < s.1))
        (fun s => do
          let acc ← g s.2 s.1
          let e ← usub s.1 w
          .ok (e, acc))
        ((k + (n + 1)) * w, acc) =
      loop fuel (fun s : ℕ × ℕ => decide (k * w < s.1))
        (fun s => do
          let acc ← g s.2 s.1
          let e ← usub s.1 w
          .ok (e, acc))
        ((k + n) * w, acc') := by
  have hlt : k * w < (k + (n + 1)) * w := Nat.mul_lt_mul_of_pos_right (by omega) hw
  have hsub : (k + (n + 1)) * w - w = (k + n) * w := by
    rw [← Nat.add_assoc, Nat.add_mul (k + n), one_mul, Nat.add_sub_cancel]
  have hle : w ≤ (k + (n + 1)) * w := Nat.le_mul_of_pos_left w (by omega)
  rw [loop_succ fuel (by simpa using hlt)]
  dsimp only
  rw [hg, ok_bind, usub_of hle, ok_bind, ok_bind, hsub]

/-- `while (e > k·w) { acc += f(e); e -= w; }` from `e = (k + n)·w`. -/
theorem loop_sumDown {f : ℕ → ℕ} {w k : ℕ} (bits : ℕ) (hw : 0 < w) :
    ∀ (n fuel acc : ℕ), n ≤ fuel → acc + sumDown f w k n < 2 ^ bits →
      loop fuel (fun s : ℕ × ℕ => decide (k * w < s.1))
        (fun s => do
          let acc ← uadd bits s.2 (f s.1)
          let e ← usub s.1 w
          .ok (e, acc))
        ((k + n) * w, acc) = .ok (k * w, acc + sumDown f w k n)
  | 0, fuel, acc, _, _ => by
    rw [loop_of_not] <;> simp [sumDown]
  | n + 1, 0, acc, hf, _ => by omega
  | n + 1, fuel + 1, acc, hf, hb => by
    simp only [sumDown] at hb ⊢
    rw [loop_down_succ (g := fun acc e => uadd bits acc (f e)) hw fuel (uadd_of (by omega)),
      loop_sumDown bits hw n fuel _ (by omega) (by omega), Nat.add_assoc]

/-- `while (e > k·w) { acc -= f(e); e -= w; }` from `e = (k + n)·w`. -/
theorem loop_subDown {f : ℕ → ℕ} {w k : ℕ} (hw : 0 < w) :
    ∀ (n fuel acc : ℕ), n ≤ fuel → sumDown f w k n ≤ acc →
      loop fuel (fun s : ℕ × ℕ => decide (k * w < s.1))
        (fun s => do
          let acc ← usub s.2 (f s.1)
          let e ← usub s.1 w
          .ok (e, acc))
        ((k + n) * w, acc) = .ok (k * w, acc - sumDown f w k n)
  | 0, fuel, acc, _, _ => by
    rw [loop_of_not] <;> simp [sumDown]
  | n + 1, 0, acc, hf, _ => by omega
  | n + 1, fuel + 1, acc, hf, hb => by
    simp only [sumDown] at hb ⊢
    rw [loop_down_succ (g := fun acc e => usub acc (f e)) hw fuel (usub_of (by omega)),
      loop_subDown hw n fuel _ (by omega) (by omega), Nat.sub_sub]

end Evm
