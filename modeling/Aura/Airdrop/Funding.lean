import Aura.Airdrop.Claims
import Mathlib.Algebra.BigOperators.Group.List.Basic
import Mathlib.Data.Nat.Pairing

/-!
# Airdrop : the funding invariant

Once the contract holds the amounts of all leaves, before the first claim, it holds the
unclaimed ones and the pending penalty until the expired rest is withdrawn, and the pending
penalty after that. It rests on the order of the time gates : a claim can only succeed after
the start and before the expiry, so there is no rescue after a claim and no claim after a
withdrawal.
-/

open Evm Function

namespace Aura.Airdrop

variable {keccak256 : Keccak} {w w₀ w' : World} {sender : Address} {c : Call} {log log₀ : Log}
  {tree : MerkleTree (Address × ℕ)}

/-! ## Unclaimed leaves -/

/-- The amounts of the leaves whose account has not claimed. -/
def unclaimed (hasClaimed : Address → Bool) (leaves : List (Address × ℕ)) : ℕ :=
  ((leaves.filter fun x => !hasClaimed x.1).map Prod.snd).sum

/-- Before the first claim all leaves are unclaimed. -/
theorem unclaimed_none {hasClaimed : Address → Bool} (h : ∀ a, hasClaimed a = false)
    (leaves : List (Address × ℕ)) : unclaimed hasClaimed leaves = (leaves.map Prod.snd).sum := by
  have hall : leaves.filter (fun x => !hasClaimed x.1) = leaves :=
    List.filter_eq_self.2 fun x _ => by rw [h]; rfl
  rw [unclaimed, hall]

theorem unclaimed_cons (hasClaimed : Address → Bool) (x : Address × ℕ)
    (leaves : List (Address × ℕ)) : unclaimed hasClaimed (x :: leaves) =
      (if hasClaimed x.1 then 0 else x.2) + unclaimed hasClaimed leaves := by
  unfold unclaimed
  rw [List.filter_cons]
  cases hx : hasClaimed x.1 with
  | true => simp
  | false => simp

/-- An account without a leaf. -/
theorem unclaimed_update_of_notMem (hasClaimed : Address → Bool) {a : Address}
    {leaves : List (Address × ℕ)} (h : a ∉ leaves.map Prod.fst) :
    unclaimed (update hasClaimed a true) leaves = unclaimed hasClaimed leaves := by
  induction leaves with
  | nil => rfl
  | cons x leaves ih =>
    rw [List.map_cons, List.mem_cons, not_or] at h
    rw [unclaimed_cons, unclaimed_cons, update_of_ne (Ne.symm h.1), ih h.2]

/-- A claim takes the amount of its leaf. -/
theorem unclaimed_claim {hasClaimed : Address → Bool} {a : Address} {n : ℕ}
    {leaves : List (Address × ℕ)} (hone : (leaves.map Prod.fst).Nodup) (hmem : (a, n) ∈ leaves)
    (hnew : hasClaimed a = false) :
    unclaimed (update hasClaimed a true) leaves + n = unclaimed hasClaimed leaves := by
  induction leaves with
  | nil => exact absurd hmem List.not_mem_nil
  | cons x leaves ih =>
    rw [List.map_cons, List.nodup_cons] at hone
    rw [unclaimed_cons, unclaimed_cons]
    rcases List.mem_cons.1 hmem with rfl | hmem
    · rw [unclaimed_update_of_notMem _ hone.1, update_self, hnew, if_pos rfl, if_neg (by simp)]
      omega
    · have hne : x.1 ≠ a := by
        rintro rfl
        exact hone.1 (List.mem_map.2 ⟨_, hmem, rfl⟩)
      rw [update_of_ne hne]
      have := ih hone.2 hmem
      omega

/-! ## The invariant -/

/-- The contract holds what the leaves and the pending penalty need. -/
structure Funded (leaves : List (Address × ℕ)) (log : Log) (w : World) : Prop where
  pending : w.drop.pendingPenalty ≤ w.aura.balanceOf w.drop.self
  funded : (∀ e ∈ log, e.call ≠ .withdrawExpired) →
    unclaimed w.drop.hasClaimed leaves + w.drop.pendingPenalty ≤ w.aura.balanceOf w.drop.self
  expired : (∃ e ∈ log, e.call = .withdrawExpired) → w.drop.expiryTime < w.now

/-- A withdrawal is not a later call of another kind. -/
theorem exists_withdrawExpired {e : Event Address Call}
    (h : ∃ d ∈ log ++ [e], d.call = .withdrawExpired) (he : e.call ≠ .withdrawExpired) :
    ∃ d ∈ log, d.call = .withdrawExpired := by
  obtain ⟨d, hd, hc⟩ := h
  rcases List.mem_append.1 hd with hd | hd
  · exact ⟨d, hd, hc⟩
  · rw [List.mem_singleton.1 hd] at hc
    exact absurd hc he

/-- A call that leaves the balance, the penalty and the claims alone. -/
theorem Funded.other {leaves : List (Address × ℕ)} {e : Event Address Call}
    (h : Funded leaves log w) (he : e.call ≠ .withdrawExpired)
    (hpen : w'.drop.pendingPenalty = w.drop.pendingPenalty)
    (hbal : w'.aura.balanceOf w'.drop.self = w.aura.balanceOf w.drop.self)
    (hclaimed : w'.drop.hasClaimed = w.drop.hasClaimed)
    (hexp : w'.drop.expiryTime = w.drop.expiryTime) (hnow : w'.now = w.now) :
    Funded leaves (log ++ [e]) w' := by
  refine ⟨?_, fun hl => ?_, fun hl => ?_⟩
  · rw [hpen, hbal]
    exact h.pending
  · rw [hpen, hbal, hclaimed]
    exact h.funded fun d hd => hl d (List.mem_append_left _ hd)
  · rw [hexp, hnow]
    exact h.expired (exists_withdrawExpired hl he)

theorem Funded.elsewhere {leaves : List (Address × ℕ)} (h : Funded leaves log w)
    (hall : w.aura.Unapproved w.drop.self) (he : Elsewhere w w') : Funded leaves log w' := by
  have hbal := he.aura.balanceOf hall
  constructor
  · rw [he.drop]
    exact h.pending.trans hbal
  · rw [he.drop]
    exact fun hl => (h.funded hl).trans hbal
  · rw [he.drop]
    exact fun hl => (h.expired hl).trans_le he.now

/-- The withdrawal leaves the pending penalty. -/
theorem Funded.withdrawExpired {leaves : List (Address × ℕ)} (h : Funded leaves log w)
    (hx : w.withdrawExpired sender = .ok w') :
    Funded leaves (log ++ [⟨w.now, sender, .withdrawExpired⟩]) w' := by
  obtain ⟨hexp, -, hx⟩ := withdrawExpired_eq_ok hx
  obtain ⟨t, ht, rfl⟩ := sendToDao_eq_ok hx
  refine ⟨?_, fun hl => ?_, fun _ => hexp⟩
  · have hle := h.pending
    have hbal := Erc20.le_transfer_add ht w.drop.self
    show w.drop.pendingPenalty ≤ t.balanceOf w.drop.self
    omega
  · exact absurd rfl (hl _ (List.mem_append_right _ (List.mem_singleton_self _)))

theorem Funded.forwardPenalty {leaves : List (Address × ℕ)} (h : Funded leaves log w)
    (hx : w.forwardPenalty = .ok w') :
    Funded leaves (log ++ [⟨w.now, sender, .forwardPenalty⟩]) w' := by
  obtain ⟨t, ht, rfl⟩ := forwardPenalty_eq_ok hx
  refine ⟨Nat.zero_le _, fun hl => ?_, fun hl => h.expired (exists_withdrawExpired hl nofun)⟩
  have hle := h.funded fun d hd => hl d (List.mem_append_left _ hd)
  have hbal := Erc20.le_transfer_add ht w.drop.self
  show unclaimed w.drop.hasClaimed leaves + 0 ≤ t.balanceOf w.drop.self
  omega

/-- A claim of a leaf : nothing can have been withdrawn before it. -/
theorem Funded.claim {leaves : List (Address × ℕ)} {proof : List ℕ} {n : ℕ} {b : Bool}
    (h : Funded leaves log w) (hall : w.aura.Unapproved w.drop.self)
    (hone : (leaves.map Prod.fst).Nodup) (hmem : (sender, n) ∈ leaves)
    (hx : w.claim keccak256 sender proof n b = .ok w') :
    Funded leaves (log ++ [⟨w.now, sender, .claim proof n b⟩]) w' := by
  obtain ⟨-, -, hexp, hnew, -, r, hr, rfl⟩ := claim_eq_ok hx
  obtain ⟨hpen, hle, -, hb⟩ := payOut_eq_ok hall hr
  have hnone : ∀ e ∈ log, e.call ≠ .withdrawExpired := fun e he hc => by
    have := h.expired ⟨e, he, hc⟩
    omega
  have hfund := h.funded hnone
  have hsum := unclaimed_claim hone hmem hnew
  have hbal := le_move_add w.aura.balanceOf w.drop.self
    (if b then w.drop.auraLocker else sender) (n - r.2.2) w.drop.self
  rw [← hb] at hbal
  refine ⟨?_, fun _ => ?_, fun hl => h.expired (exists_withdrawExpired hl nofun)⟩
  · show r.2.1 ≤ r.1.balanceOf w.drop.self
    omega
  · show unclaimed (update w.drop.hasClaimed sender true) leaves + r.2.1 ≤
      r.1.balanceOf w.drop.self
    omega

/-- What no call changes : the expiry, and a root that is set. -/
theorem exec_frame (hx : exec keccak256 w sender c = .ok w') :
    w'.drop.expiryTime = w.drop.expiryTime ∧ w'.now = w.now ∧
      (w.drop.merkleRoot ≠ 0 → w'.drop.merkleRoot = w.drop.merkleRoot) := by
  cases c with
  | setRoot x =>
    obtain ⟨-, hx⟩ := require_bind_eq_ok.1 hx
    obtain ⟨h0, hx⟩ := require_bind_eq_ok.1 hx
    cases hx
    exact ⟨rfl, rfl, fun hr => absurd h0 hr⟩
  | setDao a | setLocker a | startEarly =>
    obtain ⟨-, hx⟩ := require_bind_eq_ok.1 hx
    cases hx
    exact ⟨rfl, rfl, fun _ => rfl⟩
  | withdrawExpired =>
    obtain ⟨-, -, hx⟩ := withdrawExpired_eq_ok hx
    obtain ⟨t, -, rfl⟩ := sendToDao_eq_ok hx
    exact ⟨rfl, rfl, fun _ => rfl⟩
  | rescueReward =>
    obtain ⟨-, hx⟩ := rescueReward_eq_ok hx
    obtain ⟨t, -, rfl⟩ := sendToDao_eq_ok hx
    exact ⟨rfl, rfl, fun _ => rfl⟩
  | claim proof n b =>
    obtain ⟨-, -, -, -, -, r, -, rfl⟩ := claim_eq_ok hx
    exact ⟨rfl, rfl, fun _ => rfl⟩
  | forwardPenalty =>
    obtain ⟨t, -, rfl⟩ := forwardPenalty_eq_ok hx
    exact ⟨rfl, rfl, fun _ => rfl⟩

theorem Funded.step (hH : keccak256.CollisionFree) (hone : (tree.leaves.map Prod.fst).Nodup)
    (h : Funded tree.leaves log w) (hall : w.aura.Unapproved w.drop.self)
    (hroot : w.drop.merkleRoot = 0 ∨ w.drop.merkleRoot = tree.root keccak256)
    (hc : c ≠ .rescueReward) (hx : exec keccak256 w sender c = .ok w') :
    Funded tree.leaves (log ++ [⟨w.now, sender, c⟩]) w' := by
  cases c with
  | setDao a | setLocker a | startEarly =>
    obtain ⟨-, hx⟩ := require_bind_eq_ok.1 hx
    cases hx
    exact h.other nofun rfl rfl rfl rfl rfl
  | setRoot x =>
    obtain ⟨-, hx⟩ := require_bind_eq_ok.1 hx
    obtain ⟨-, hx⟩ := require_bind_eq_ok.1 hx
    cases hx
    exact h.other nofun rfl rfl rfl rfl rfl
  | withdrawExpired => exact h.withdrawExpired hx
  | rescueReward => exact absurd rfl hc
  | claim proof n b =>
    obtain ⟨hne, -, -, -, hver, -⟩ := claim_eq_ok hx
    rw [hroot.resolve_left hne] at hver
    exact h.claim hall hone (hH.mem_leaves hver) hx
  | forwardPenalty => exact h.forwardPenalty hx

/-- From a funded state before the first claim on, without a rescue. -/
theorem Funded.of_steps (hH : keccak256.CollisionFree) (hone : (tree.leaves.map Prod.fst).Nodup)
    (h₀ : (system keccak256).Reachable log₀ w₀) (hnone : ∀ e ∈ log₀, e.call.isClaim = false)
    (hfund : (tree.leaves.map Prod.snd).sum ≤ w₀.aura.balanceOf w₀.drop.self)
    (hs : (system keccak256).Steps w₀ log w) (hres : ∀ e ∈ log, e.call ≠ .rescueReward)
    (hroot : w.drop.merkleRoot = 0 ∨ w.drop.merkleRoot = tree.root keccak256) :
    Funded tree.leaves log w := by
  obtain ⟨w₁, hd, hs₀⟩ := h₀
  induction hs with
  | refl =>
    have hrec : Recorded keccak256 _ _ := .of_reachable ⟨w₁, hd, hs₀⟩
    have hpen := hrec.pendingPenalty hnone
    refine ⟨by omega, fun _ => ?_, by simp⟩
    rw [unclaimed_none (hrec.fresh hnone), hpen, Nat.add_zero]
    exact hfund
  | elsewhere hs he ih =>
    have hrec : Recorded keccak256 _ _ := .of_reachable ⟨w₁, hd, hs₀.trans hs⟩
    rw [he.drop] at hroot
    exact (ih hres hroot).elsewhere hrec.unapproved he
  | @call log w w' sender c hs hc hx ih =>
    have hrec : Recorded keccak256 _ _ := .of_reachable ⟨w₁, hd, hs₀.trans hs⟩
    have hroot' : w.drop.merkleRoot = 0 ∨ w.drop.merkleRoot = tree.root keccak256 := by
      by_cases hr : w.drop.merkleRoot = 0
      · exact .inl hr
      · rwa [(exec_frame hx).2.2 hr] at hroot
    have hih := ih (fun e he => hres e (List.mem_append_left _ he)) hroot'
    exact hih.step hH hone hrec.unapproved hroot'
      (hres _ (List.mem_append_right _ (List.mem_singleton_self _))) hx

/-! ## The time gates -/

/-- No rescue after a claim. -/
theorem rescueReward_ne_ok (h : (system keccak256).Reachable log w)
    (hlog : ∃ e ∈ log, e.call.isClaim = true) (sender : Address) :
    exec keccak256 w sender .rescueReward ≠ .ok w' := by
  intro hx
  have hlt := (rescueReward_eq_ok hx).1
  have hle := (Recorded.of_reachable h).started hlog
  omega

/-- Once the expiry has passed, no claim succeeds any more. -/
theorem claim_ne_ok (hexp : w.drop.expiryTime < w.now) (hs : (system keccak256).Steps w log w')
    (sender : Address) (proof : List ℕ) (n : ℕ) (b : Bool) (w'' : World) :
    exec keccak256 w' sender (.claim proof n b) ≠ .ok w'' := by
  have hinv : w'.drop.expiryTime < w'.now := by
    refine hs.invariant (P := fun w => w.drop.expiryTime < w.now) (fun w w' h he => ?_)
      (fun w w' sender c h _ hx => ?_) hexp
    · rw [he.drop]
      exact h.trans_le he.now
    · obtain ⟨he, hn, -⟩ := exec_frame hx
      rw [he, hn]
      exact h
  intro hx
  have := (claim_eq_ok hx).2.2.1
  omega

theorem withdrawExpired_ne_underflow (h : w.drop.pendingPenalty ≤ w.aura.balanceOf w.drop.self) :
    w.withdrawExpired sender ≠ .error .underflow := by
  refine bind_ne_underflow (require_ne_underflow _) fun _ _ => ?_
  refine bind_ne_underflow (require_ne_underflow _) fun _ _ => ?_
  rw [usub_of h, ok_bind]
  exact bind_ne_underflow (Erc20.transfer_ne_underflow _ _ _ _) fun _ _ => ok_ne_underflow _

/-! ## Payments are movements of the ledger -/

/-- The balances after a payment of the contract `d` : the penalty of a claim stays. -/
def Payment.apply (d : AuraMerkleDrop) (p : Payment) (balanceOf : Address → ℕ) : Address → ℕ :=
  match p with
  | .claimed addr amt penalty locked =>
    move balanceOf d.self (if locked then d.auraLocker else addr) (amt - penalty)
  | .forwarded amount => move balanceOf d.self d.penaltyForwarder amount
  | .toDao amount => move balanceOf d.self d.dao amount

theorem sendToDao_ledger {amt : ℕ} (h : w.sendToDao amt = .ok w') :
    w'.payments = .toDao amt :: w.payments ∧
      w'.aura.balanceOf = (Payment.toDao amt).apply w.drop w.aura.balanceOf := by
  obtain ⟨t, ht, rfl⟩ := sendToDao_eq_ok h
  exact ⟨rfl, (Erc20.transfer_eq_ok ht).2.2.2.1⟩

/-- The new payments of a call are what moves in the ledger. -/
theorem exec_ledger (hall : w.aura.Unapproved w.drop.self)
    (hx : exec keccak256 w sender c = .ok w') : ∃ ps : List Payment,
      w'.payments = ps ++ w.payments ∧
        w'.aura.balanceOf = ps.foldr (Payment.apply w.drop) w.aura.balanceOf := by
  cases c with
  | setRoot x =>
    obtain ⟨-, hx⟩ := require_bind_eq_ok.1 hx
    obtain ⟨-, hx⟩ := require_bind_eq_ok.1 hx
    cases hx
    exact ⟨[], rfl, rfl⟩
  | setDao a | setLocker a | startEarly =>
    obtain ⟨-, hx⟩ := require_bind_eq_ok.1 hx
    cases hx
    exact ⟨[], rfl, rfl⟩
  | withdrawExpired =>
    obtain ⟨hp, hb⟩ := sendToDao_ledger (withdrawExpired_eq_ok hx).2.2
    exact ⟨[_], hp, hb⟩
  | rescueReward =>
    obtain ⟨hp, hb⟩ := sendToDao_ledger (rescueReward_eq_ok hx).2
    exact ⟨[_], hp, hb⟩
  | claim proof n b =>
    obtain ⟨-, -, -, -, -, r, hr, rfl⟩ := claim_eq_ok hx
    exact ⟨[_], rfl, (payOut_eq_ok hall hr).2.2.2⟩
  | forwardPenalty =>
    obtain ⟨t, ht, rfl⟩ := forwardPenalty_eq_ok hx
    exact ⟨[_], rfl, (Erc20.transfer_eq_ok ht).2.2.2.1⟩

/-! ## The main result -/

/-- From a state on that holds the amounts of all leaves before the first claim, without a
rescue : the unclaimed leaves and the pending penalty stay covered until the expired rest is
withdrawn; an account is paid the amount of its leaf, once, and a claim marks it and moves the
amount less the penalty; the forwarder gets the pending penalty; there is no rescue after a
claim; and a withdrawal does not underflow, leaves the pending penalty and comes after the
last claim. -/
theorem funding_invariant (hH : keccak256.CollisionFree)
    (hone : (tree.leaves.map Prod.fst).Nodup) (h₀ : (system keccak256).Reachable log₀ w₀)
    (hnone : ∀ e ∈ log₀, e.call.isClaim = false)
    (hfund : (tree.leaves.map Prod.snd).sum ≤ w₀.aura.balanceOf w₀.drop.self)
    (hs : (system keccak256).Steps w₀ log w) (hres : ∀ e ∈ log, e.call ≠ .rescueReward)
    (hroot : w.drop.merkleRoot = 0 ∨ w.drop.merkleRoot = tree.root keccak256) :
    ((∀ e ∈ log, e.call ≠ .withdrawExpired) →
      unclaimed w.drop.hasClaimed tree.leaves + w.drop.pendingPenalty ≤
        w.aura.balanceOf w.drop.self) ∧
    (∀ a, if w.drop.hasClaimed a then ∃ n, (a, n) ∈ tree.leaves ∧ claimsOf a w.payments = [n]
      else claimsOf a w.payments = []) ∧
    penaltiesOf w.payments = w.drop.pendingPenalty + forwardedOf w.payments ∧
    (∀ sender c w', exec keccak256 w sender c = .ok w' → ∃ ps : List Payment,
      w'.payments = ps ++ w.payments ∧
        w'.aura.balanceOf = ps.foldr (Payment.apply w.drop) w.aura.balanceOf) ∧
    (∀ account proof n b w', w.claim keccak256 account proof n b = .ok w' →
      (account, n) ∈ tree.leaves ∧ Claimed w w' account n b) ∧
    (∀ w', w.forwardPenalty = .ok w' → w'.drop.pendingPenalty = 0 ∧ w'.aura.balanceOf =
      move w.aura.balanceOf w.drop.self w.drop.penaltyForwarder w.drop.pendingPenalty) ∧
    (∀ log' w', (system keccak256).Reachable log' w' → (∃ e ∈ log', e.call.isClaim = true) →
      ∀ sender w'', exec keccak256 w' sender .rescueReward ≠ .ok w'') ∧
    (∀ sender, exec keccak256 w sender .withdrawExpired ≠ .error .underflow) ∧
    ∀ sender w', exec keccak256 w sender .withdrawExpired = .ok w' →
      w'.drop.pendingPenalty = w.drop.pendingPenalty ∧
      w'.aura.balanceOf = move w.aura.balanceOf w.drop.self w.drop.dao
        (w.aura.balanceOf w.drop.self - w.drop.pendingPenalty) ∧
      w'.drop.pendingPenalty ≤ w'.aura.balanceOf w'.drop.self ∧
      ∀ log' w'', (system keccak256).Steps w' log' w'' → ∀ account proof n b w₁,
        exec keccak256 w'' account (.claim proof n b) ≠ .ok w₁ := by
  have hf := Funded.of_steps hH hone h₀ hnone hfund hs hres hroot
  obtain ⟨w₁, hd, hs₀⟩ := h₀
  have hrec : Recorded keccak256 _ _ := .of_reachable ⟨w₁, hd, hs₀.trans hs⟩
  refine ⟨hf.funded, fun a => ?_, hrec.penalties, fun _ _ _ hx => exec_ledger hrec.unapproved hx,
    fun account proof n b w' hx => ?_, fun w' hx => ?_,
    fun _ _ h hl sender _ => rescueReward_ne_ok h hl sender,
    fun _ => withdrawExpired_ne_underflow hf.pending, fun sender w' hx => ?_⟩
  · cases hc : w.drop.hasClaimed a with
    | false =>
      rw [if_neg Bool.false_ne_true]
      exact hrec.unpaid a hc
    | true =>
      rw [if_pos rfl]
      obtain ⟨n, hn, hne, proof, hver⟩ := hrec.paid a hc
      rw [hroot.resolve_left hne] at hver
      exact ⟨n, hH.mem_leaves hver, hn⟩
  · obtain ⟨hne, -, -, -, hver, -⟩ := claim_eq_ok hx
    rw [hroot.resolve_left hne] at hver
    exact ⟨hH.mem_leaves hver, claim_claimed hrec.unapproved hx⟩
  · obtain ⟨t, ht, rfl⟩ := forwardPenalty_eq_ok hx
    exact ⟨rfl, (Erc20.transfer_eq_ok ht).2.2.2.1⟩
  · have hf' := hf.withdrawExpired hx
    obtain ⟨hexp, hnow, -⟩ := exec_frame hx
    obtain ⟨hlt, -, hx⟩ := withdrawExpired_eq_ok hx
    rw [← hexp, ← hnow] at hlt
    obtain ⟨-, hmoved⟩ := sendToDao_ledger hx
    refine ⟨?_, hmoved, hf'.pending, fun _ _ hs' => claim_ne_ok hlt hs'⟩
    obtain ⟨t, -, rfl⟩ := sendToDao_eq_ok hx
    rfl

/-! ## A run -/

/-- Hashing without collisions, on numbers. -/
def pairing : Keccak where
  leaf x := 2 * Nat.pair (Fin.val (n := 2 ^ 160) x.1) x.2 + 1
  pair a b := 2 * Nat.pair (min a b) (max a b) + 2

theorem pairing_collisionFree : pairing.CollisionFree where
  pair_comm a b := by simp only [pairing, min_comm a b, max_comm a b]
  leaf_inj {x y} h := by
    have hp : Nat.pair (Fin.val (n := 2 ^ 160) x.1) x.2 =
        Nat.pair (Fin.val (n := 2 ^ 160) y.1) y.2 := by
      simp only [pairing] at h
      omega
    obtain ⟨h1, h2⟩ := Nat.pair_eq_pair.1 hp
    exact Prod.ext (Fin.ext h1) h2
  pair_inj {a b c d} h := by
    have hp : Nat.pair (min a b) (max a b) = Nat.pair (min c d) (max c d) := by
      simp only [pairing] at h
      omega
    obtain ⟨h1, h2⟩ := Nat.pair_eq_pair.1 hp
    omega
  leaf_ne_pair x a b h := by
    simp only [pairing] at h
    omega

/-- Leaves for the accounts 3 and 4. -/
def someTree : MerkleTree (Address × ℕ) :=
  .node (.leaf (3, 100)) (.leaf (4, 60))

/-- The contract for `someTree` at the address 300, deployed at the time 1000 by the DAO 2. It
holds 10^30 tokens, and all others have approved everybody. -/
def World.initial : World where
  now := 1000
  aura := Erc20.single 300 (10 ^ 30) Erc20.single_supply_lt fun a _ =>
    if a = 300 then 0 else 2 ^ 256 - 1
  accepts _ _ n := decide (0 < n)
  drop := ⟨300, 2, someTree.root pairing, 200, 9, 0, 1000, 1100, 1100 + 1814400, fun _ => false⟩
  payments := []

theorem deploy_someRoot (root : ℕ) : deploy 1000 300 2 root 100 200 9 100 1814400 =
    .ok ⟨300, 2, root, 200, 9, 0, 1000, 1100, 1100 + 1814400, fun _ => false⟩ := by
  have hdao : (2 : Address) ≠ 0 := by decide
  have haura : (100 : Address) ≠ 0 := by decide
  unfold deploy
  rw [require_of hdao, ok_bind, require_of haura, ok_bind, uadd_of (by norm_num), ok_bind,
    require_of (by norm_num), ok_bind, uadd_of (by norm_num), ok_bind]

theorem World.initial_deployed : Deployed World.initial where
  self_ne := show (300 : Address) ≠ 0 by decide
  deploy := ⟨2, someTree.root pairing, 100, 200, 9, 100, 1814400, deploy_someRoot _⟩
  unapproved _ := rfl
  payments := rfl

/-- The world at a later time. -/
def World.at (w : World) (now : ℕ) : World :=
  { w with now }

theorem World.elsewhere_at (w : World) (now : ℕ) (h : w.now ≤ now) : Elsewhere w (w.at now) :=
  ⟨h, Erc20.Others.refl _ _, rfl, rfl⟩

/-- A claim, a change of the locker, a lock, and the penalty. -/
def World.someCalls : Log :=
  [⟨2000, 3, .claim [pairing.leaf (4, 60)] 100 false⟩, ⟨2100, 2, .setLocker 201⟩,
    ⟨2200, 4, .claim [pairing.leaf (3, 100)] 60 true⟩, ⟨2300, 2, .startEarly⟩,
    ⟨2400, 5, .forwardPenalty⟩]

/-- After the run two accounts are paid, and the first claim of it is. -/
theorem funding_invariant_run : (∃ w, (system pairing).Steps World.initial World.someCalls w ∧
    unclaimed w.drop.hasClaimed someTree.leaves + w.drop.pendingPenalty ≤
      w.aura.balanceOf w.drop.self ∧
    (∀ sender, exec pairing w sender .withdrawExpired ≠ .error .underflow) ∧
    penaltiesOf w.payments = w.drop.pendingPenalty + forwardedOf w.payments ∧
    penaltiesOf w.payments = 30) ∧
    ∃ w', (World.initial.at 2000).claim pairing 3 [pairing.leaf (4, 60)] 100 false = .ok w' ∧
      Claimed (World.initial.at 2000) w' 3 100 false := by
  have hone : (someTree.leaves.map Prod.fst).Nodup := by decide +kernel
  have hdeployed : (system pairing).Reachable [] World.initial :=
    ⟨World.initial, World.initial_deployed, .refl⟩
  have hfunded : (someTree.leaves.map Prod.snd).sum ≤
      World.initial.aura.balanceOf World.initial.drop.self := by decide +kernel
  constructor
  · have hvalues : ((system pairing).play World.at World.initial World.someCalls).map
        (fun w => (w.drop.merkleRoot, penaltiesOf w.payments)) =
        .ok (someTree.root pairing, 30) := by decide +kernel
    cases hw : (system pairing).play World.at World.initial World.someCalls with
    | error e =>
      rw [hw] at hvalues
      cases hvalues
    | ok w =>
      rw [hw] at hvalues
      obtain ⟨hroot, hthirty⟩ := Prod.ext_iff.1 (Except.ok.inj hvalues)
      have hsteps : (system pairing).Steps World.initial World.someCalls w :=
        .play World.elsewhere_at hw
      obtain ⟨hfund, -, hpen, -, -, -, -, hunder, -⟩ := funding_invariant pairing_collisionFree
        hone hdeployed (by simp) hfunded hsteps (by decide +kernel) (.inr hroot)
      exact ⟨w, hsteps, hfund (by decide +kernel), hunder, hpen, hthirty⟩
  · obtain ⟨w', hw'⟩ := Tx.exists_ok (show ((World.initial.at 2000).claim pairing 3
      [pairing.leaf (4, 60)] 100 false).returns = true by decide +kernel)
    have hsteps : (system pairing).Steps World.initial [] (World.initial.at 2000) :=
      .elsewhere .refl (World.initial.elsewhere_at 2000 (by decide))
    obtain ⟨-, -, -, -, hclaim, -⟩ := funding_invariant pairing_collisionFree hone hdeployed
      (by simp) hfunded hsteps (by simp) (.inr rfl)
    exact ⟨w', hw', (hclaim _ _ _ _ _ hw').2⟩

end Aura.Airdrop
