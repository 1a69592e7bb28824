import Aura.Sidechain.FeeBacking

/-!
# Sidechain : AuraDistributor

`AuraDistributor.sol` has the L1Coordinator distribute AURA to several sidechains at once. The
L1Coordinator pays their fees to the Booster out of the BAL that it holds, which need not have
arrived yet for all of them. So the distributor adds up the debts first and sends the
L1Coordinator what it lacks (`distribution_covered`). A chain that is listed twice counts twice
in that sum, but has no debt left the second time. A Booster that mints nothing for no fees
makes the whole call revert with `!reward` then, as for any chain without a debt.
-/

open Evm Function

namespace Aura.Sidechain

open Bridge (ChainId)

variable {β : Type}

structure AuraDistributor where
  /-- `address(this)`. -/
  self : Address
  balToken : Address
  distributor : Address

/-- The debt of a chain for which no AURA was distributed. -/
def L1Coordinator.owed (s : L1Coordinator β) (c : ChainId) : ℕ :=
  s.feeDebtOf c - s.distributedFeeDebtOf c

/-- The BAL that the contract holds. -/
def L1Coordinator.float (s : L1Coordinator β) : ℕ :=
  (s.tokens s.balToken).balanceOf s.self

/-- All that the Booster does with the BAL of its caller is to take the fees. -/
def TakesFees (β : Type) [Booster β] (balToken : Address) : Prop :=
  ∀ (b : β) (booster sender : Address) (n : ℕ) (tokens : Address → Erc20 Address)
    (r : β × (Address → Erc20 Address)), booster ≠ sender →
    Booster.distributeL2Fees b booster sender n tokens = .ok r →
      (r.2 balToken).balanceOf sender + n = (tokens balToken).balanceOf sender

/-- The Booster mints no AURA for no fees. -/
def MintsForFees (β : Type) [Booster β] (auraToken : Address) : Prop :=
  ∀ (b : β) (booster sender : Address) (tokens : Address → Erc20 Address)
    (r : β × (Address → Erc20 Address)),
    Booster.distributeL2Fees b booster sender 0 tokens = .ok r →
      (r.2 auraToken).balanceOf sender ≤ (tokens auraToken).balanceOf sender

namespace AuraDistributor

/-- The first loop of `distributeAura`. -/
def addDebts (l1 : L1Coordinator β) : ℕ → List ChainId → Tx ℕ
  | totalFeeDebt, [] => .ok totalFeeDebt
  | totalFeeDebt, c :: cs => do
    let x ← AuraMath.sub (l1.feeDebtOf c) (l1.distributedFeeDebtOf c)
    let totalFeeDebt ← AuraMath.add totalFeeDebt x
    addDebts l1 totalFeeDebt cs

variable [Booster β]

/-- The second loop. -/
def distributeAll (d : AuraDistributor) : Coordinators β → List ChainId → Tx (Coordinators β)
  | n, [] => .ok n
  | n, c :: cs => do
    let n ← n.exec d.self (.l1 (.distributeAura c))
    d.distributeAll n cs

/-- The transfer between the two loops. -/
def topUp (d : AuraDistributor) (n : Coordinators β) (balShortfall : ℕ) : Tx (Coordinators β) :=
  if 0 < balShortfall then do
    let t ← (n.l1.tokens d.balToken).transfer d.self n.l1.self balShortfall
    .ok { n with l1 := { n.l1 with tokens := update n.l1.tokens d.balToken t } }
  else .ok n

/-- What the L1Coordinator lacks. -/
def shortfall (d : AuraDistributor) (n : Coordinators β) (_srcChainId : List ChainId) : Tx ℕ := do
  let balBalance := (n.l1.tokens d.balToken).balanceOf n.l1.self
  let totalFeeDebt ← addDebts n.l1 0 _srcChainId
  if balBalance < totalFeeDebt then AuraMath.sub totalFeeDebt balBalance else .ok 0

def distributeAura (d : AuraDistributor) (n : Coordinators β) (sender : Address)
    (_srcChainId : List ChainId) : Tx (Coordinators β) := do
  require (sender = d.distributor) "!distributor"
  let balShortfall ← d.shortfall n _srcChainId
  let n ← d.topUp n balShortfall
  d.distributeAll n _srcChainId

/-! ### The debts -/

variable {d : AuraDistributor} {n n' m : Coordinators β} {log : List Event} {cs : List ChainId}
  {c : ChainId} {k : ℕ}

omit [Booster β] in
theorem addDebts_eq_ok {l1 : L1Coordinator β} {start : ℕ} (h : addDebts l1 start cs = .ok k) :
    k = start + (cs.map l1.owed).sum := by
  induction cs generalizing start with
  | nil => exact (Except.ok.inj h).symm
  | cons c cs ih =>
    obtain ⟨x, hx, h⟩ := bind_eq_ok.1 h
    obtain ⟨-, rfl⟩ := usub_eq_ok.1 hx
    obtain ⟨y, hy, h⟩ := bind_eq_ok.1 h
    obtain ⟨-, rfl⟩ := uadd_eq_ok.1 hy
    rw [ih h, List.map_cons, List.sum_cons, ← Nat.add_assoc]
    rfl

omit [Booster β] in
theorem addDebts_of {l1 : L1Coordinator β} {start : ℕ}
    (hle : ∀ c, l1.distributedFeeDebtOf c ≤ l1.feeDebtOf c)
    (hlt : start + (cs.map l1.owed).sum < 2 ^ 256) :
    addDebts l1 start cs = .ok (start + (cs.map l1.owed).sum) := by
  induction cs generalizing start with
  | nil => rfl
  | cons c cs ih =>
    rw [List.map_cons, List.sum_cons, ← Nat.add_assoc] at hlt ⊢
    have hsub : AuraMath.sub (l1.feeDebtOf c) (l1.distributedFeeDebtOf c) = .ok (l1.owed c) :=
      usub_of (hle c)
    have hadd : AuraMath.add start (l1.owed c) = .ok (start + l1.owed c) :=
      uadd_of ((Nat.le_add_right _ _).trans_lt hlt)
    unfold addDebts
    rw [hsub, ok_bind, hadd, ok_bind]
    exact ih hlt

/-- What the coordinator lacks to pay the debts of `cs` one after another. -/
def lack (l1 : L1Coordinator β) (cs : List ChainId) : ℕ :=
  (cs.map l1.owed).sum - l1.float

omit [Booster β] in
theorem shortfall_eq_ok (hbal : d.balToken = n.l1.balToken) (h : d.shortfall n cs = .ok k) :
    k = lack n.l1 cs := by
  obtain ⟨total, ht, h⟩ := bind_eq_ok.1 h
  have htotal := addDebts_eq_ok ht
  rw [Nat.zero_add] at htotal
  unfold lack L1Coordinator.float
  rw [← htotal, ← hbal]
  split_ifs at h with hlt
  · exact (usub_eq_ok.1 h).2
  · cases h
    exact (Nat.sub_eq_zero_of_le (not_lt.1 hlt)).symm

omit [Booster β] in
theorem shortfall_of (hbal : d.balToken = n.l1.balToken)
    (hle : ∀ c, n.l1.distributedFeeDebtOf c ≤ n.l1.feeDebtOf c)
    (hlt : (cs.map n.l1.owed).sum < 2 ^ 256) : d.shortfall n cs = .ok (lack n.l1 cs) := by
  have hadd : addDebts n.l1 0 cs = .ok (cs.map n.l1.owed).sum := by
    rw [addDebts_of hle (by rwa [Nat.zero_add]), Nat.zero_add]
  unfold shortfall lack L1Coordinator.float
  rw [← hbal]
  dsimp only
  rw [hadd, ok_bind]
  split_ifs with hcmp
  · exact usub_of hcmp.le
  · rw [Nat.sub_eq_zero_of_le (not_lt.1 hcmp)]

omit [Booster β] in
/-- The top-up only moves BAL to the coordinator. -/
theorem topUp_eq_ok (hbal : d.balToken = n.l1.balToken) (hself : d.self ≠ n.l1.self)
    (h : d.topUp n k = .ok m) : n.Elsewhere m ∧ m.l1.owed = n.l1.owed ∧
      m.l1.float = n.l1.float + k ∧ m.l1.self = n.l1.self ∧ m.l1.balToken = n.l1.balToken ∧
        m.l1.auraToken = n.l1.auraToken ∧ m.l1.booster = n.l1.booster := by
  unfold topUp at h
  split_ifs at h with hpos
  · obtain ⟨t, ht, h⟩ := bind_eq_ok.1 h
    cases h
    refine ⟨⟨⟨_, _, rfl⟩, fun _ => ⟨_, rfl, le_rfl⟩, rfl⟩, rfl, ?_, rfl, rfl, rfl, rfl⟩
    unfold L1Coordinator.float
    dsimp only
    rw [← hbal, update_self, (Erc20.transfer_eq_ok ht).2.2.2.1, move_dst _ _ hself]
  · cases h
    rw [Nat.eq_zero_of_not_pos hpos]
    exact ⟨⟨⟨_, _, rfl⟩, fun _ => ⟨_, rfl, le_rfl⟩, rfl⟩, rfl, rfl, rfl, rfl, rfl, rfl⟩

/-! ### The distributions -/

/-- What paying the chains in `paid` does to the debts and to the BAL. -/
structure Pays (n n' : Coordinators β) (paid : Finset ChainId) : Prop where
  owed : ∀ c, n'.l1.owed c = if c ∈ paid then 0 else n.l1.owed c
  float : n'.l1.float + ∑ c ∈ paid, n.l1.owed c = n.l1.float
  self : n'.l1.self = n.l1.self
  balToken : n'.l1.balToken = n.l1.balToken
  auraToken : n'.l1.auraToken = n.l1.auraToken
  booster : n'.l1.booster = n.l1.booster

omit [Booster β] in
theorem Pays.refl (n : Coordinators β) : Pays n n ∅ :=
  ⟨fun _ => rfl, rfl, rfl, rfl, rfl, rfl⟩

omit [Booster β] in
/-- A chain that was paid owes nothing the second time. -/
theorem Pays.trans {s t : Finset ChainId} (h : Pays n m s) (h' : Pays m n' t) :
    Pays n n' (s ∪ t) := by
  refine ⟨fun c => ?_, ?_, h'.self.trans h.self, h'.balToken.trans h.balToken,
    h'.auraToken.trans h.auraToken, h'.booster.trans h.booster⟩
  · rw [h'.owed, h.owed]
    by_cases ht : c ∈ t <;> simp [ht]
  · have hlater : ∑ c ∈ t, m.l1.owed c = ∑ c ∈ t \ s, n.l1.owed c := by
      rw [← Finset.sum_filter_add_sum_filter_not t (· ∈ s), Finset.sum_eq_zero, Nat.zero_add,
        Finset.filter_notMem_eq_sdiff]
      · refine Finset.sum_congr rfl fun c hc => ?_
        rw [h.owed, if_neg (Finset.mem_sdiff.1 hc).2]
      · intro c hc
        rw [h.owed, if_pos (Finset.mem_filter.1 hc).2]
    have hfirst := h.float
    have hsecond := h'.float
    rw [hlater] at hsecond
    rw [← Finset.union_sdiff_self_eq_union, Finset.sum_union Finset.disjoint_sdiff]
    omega

/-- One `distributeAura` pays its chain. -/
theorem pays_exec (hfees : TakesFees β n.l1.balToken) (hbooster : n.l1.booster ≠ n.l1.self)
    (haura : n.l1.auraToken ≠ n.l1.balToken)
    (h : n.exec d.self (.l1 (.distributeAura c)) = .ok m) : Pays n m {c} := by
  obtain ⟨⟨s, ms⟩, hs, h⟩ := bind_eq_ok.1 h
  cases h
  obtain ⟨_, _, _, hdist⟩ := L1Coordinator.distributeAura_eq_ok hs
  obtain ⟨r, t, hr, hself, hbal, htoken, hb, htokens, -⟩ := L1Coordinator.distributeAura_tokens hs
  refine ⟨fun c' => ?_, ?_, hself, hbal, htoken, hb⟩
  · show s.feeDebtOf c' - s.distributedFeeDebtOf c' = _
    rw [hdist.feeDebtOf, hdist.distributedFeeDebtOf]
    by_cases hc : c' = c
    · subst hc
      rw [update_self, Nat.sub_self, if_pos (Finset.mem_singleton_self _)]
    · rw [update_of_ne hc, if_neg (Finset.notMem_singleton.2 hc)]
      rfl
  · have htaken := hfees _ _ _ _ _ _ hbooster hr
    rw [Finset.sum_singleton]
    show (s.tokens s.balToken).balanceOf s.self + n.l1.owed c = _
    rw [hself, hbal, htokens, update_of_ne haura.symm]
    exact htaken

/-- The loop is a run of the coordinators. -/
theorem run_distributeAll {log : List Event} (h : Run (fun _ _ => True) log n) (h0 : d.self ≠ 0)
    (hself : d.self ≠ n.l1.self) (hd : d.distributeAll n cs = .ok n') :
    Run (fun _ _ => True) (log ++ cs.map fun c => ⟨d.self, .l1 (.distributeAura c)⟩) n' := by
  induction cs generalizing n log with
  | nil =>
    cases hd
    rwa [List.map_nil, List.append_nil]
  | cons c cs ih =>
    obtain ⟨m, hm, hd⟩ := bind_eq_ok.1 hd
    have hstep : Run (fun _ _ => True) (log ++ [⟨d.self, .l1 (.distributeAura c)⟩]) m :=
      .call h ⟨h0, hself⟩ trivial hm
    have hselves : m.l1.self = n.l1.self := by
      obtain ⟨⟨s, ms⟩, hs, hm⟩ := bind_eq_ok.1 hm
      cases hm
      obtain ⟨_, _, -, hselves, -⟩ := L1Coordinator.distributeAura_tokens hs
      exact hselves
    rw [List.map_cons, List.append_cons]
    exact ih hstep (by rwa [hselves]) hd

/-- The loop pays the chains of the list, each once. -/
theorem pays_distributeAll (hfees : TakesFees β n.l1.balToken)
    (hbooster : n.l1.booster ≠ n.l1.self) (haura : n.l1.auraToken ≠ n.l1.balToken)
    (hd : d.distributeAll n cs = .ok n') : Pays n n' cs.toFinset := by
  induction cs generalizing n with
  | nil =>
    cases hd
    exact .refl _
  | cons c cs ih =>
    obtain ⟨m, hm, hd⟩ := bind_eq_ok.1 hd
    have hpays := pays_exec hfees hbooster haura hm
    have hrest := ih (by rwa [hpays.balToken]) (by rwa [hpays.booster, hpays.self])
      (by rwa [hpays.auraToken, hpays.balToken]) hd
    rw [List.toFinset_cons, Finset.insert_eq]
    exact hpays.trans hrest

omit [Booster β] in
/-- The sum over the list counts a chain at least once. -/
theorem sum_toFinset_le (f : ChainId → ℕ) (cs : List ChainId) :
    ∑ c ∈ cs.toFinset, f c ≤ (cs.map f).sum := by
  induction cs with
  | nil => exact le_rfl
  | cons c cs ih =>
    rw [List.toFinset_cons, Finset.insert_eq, List.map_cons, List.sum_cons]
    have hunion : ∑ x ∈ {c} ∪ cs.toFinset, f x + ∑ x ∈ {c} ∩ cs.toFinset, f x =
        ∑ x ∈ {c}, f x + ∑ x ∈ cs.toFinset, f x := Finset.sum_union_inter
    rw [Finset.sum_singleton] at hunion
    omega

/-- With enough BAL for the whole list, there is enough whenever the loop comes to a chain. -/
theorem owed_le_float (hfees : TakesFees β n.l1.balToken)
    (hbooster : n.l1.booster ≠ n.l1.self) (haura : n.l1.auraToken ≠ n.l1.balToken)
    {cs₁ cs₂ : List ChainId} (hcs : cs = cs₁ ++ c :: cs₂)
    (hle : (cs.map n.l1.owed).sum ≤ n.l1.float)
    (hd : d.distributeAll n cs₁ = .ok m) : m.l1.owed c ≤ m.l1.float := by
  subst hcs
  have hpays := pays_distributeAll hfees hbooster haura hd
  have hfloat := hpays.float
  have hsum := sum_toFinset_le n.l1.owed cs₁
  rw [hpays.owed]
  rw [List.map_append, List.map_cons, List.sum_append, List.sum_cons] at hle
  split_ifs
  · exact Nat.zero_le _
  · omega

/-- A chain without a debt brings no reward. -/
theorem owed_pos (hmints : MintsForFees β n.l1.auraToken)
    (h : n.exec d.self (.l1 (.distributeAura c)) = .ok m) : 0 < n.l1.owed c := by
  obtain ⟨⟨s, ms⟩, hs, h⟩ := bind_eq_ok.1 h
  obtain ⟨r, minted, reward, hdist⟩ := L1Coordinator.distributeAura_eq_ok hs
  by_contra hzero
  have hcall := hdist.call
  rw [show n.l1.feeDebtOf c - n.l1.distributedFeeDebtOf c = 0 from Nat.eq_zero_of_not_pos hzero]
    at hcall
  have hnone := hmints _ _ _ _ _ hcall
  have hminted := hdist.balance
  have hpos := hdist.reward_pos
  have hle := hdist.reward_le
  omega

/-- So the loop only comes to its end for distinct chains that have debts. -/
theorem nodup_of_distributeAll (hfees : TakesFees β n.l1.balToken)
    (hmints : MintsForFees β n.l1.auraToken) (hbooster : n.l1.booster ≠ n.l1.self)
    (haura : n.l1.auraToken ≠ n.l1.balToken) (hd : d.distributeAll n cs = .ok n') :
    cs.Nodup ∧ ∀ c ∈ cs, 0 < n.l1.owed c := by
  induction cs generalizing n with
  | nil => exact ⟨List.nodup_nil, nofun⟩
  | cons c cs ih =>
    obtain ⟨m, hm, hd⟩ := bind_eq_ok.1 hd
    have hpays := pays_exec hfees hbooster haura hm
    obtain ⟨hnodup, hrest⟩ := ih (by rwa [hpays.balToken]) (by rwa [hpays.auraToken])
      (by rwa [hpays.booster, hpays.self]) (by rwa [hpays.auraToken, hpays.balToken]) hd
    have howed : ∀ c' ∈ cs, c' ≠ c ∧ 0 < n.l1.owed c' := by
      intro c' hmem
      have hpos := hrest c' hmem
      rw [hpays.owed] at hpos
      split_ifs at hpos with hc
      · exact absurd hpos (lt_irrefl 0)
      · exact ⟨fun he => hc (Finset.mem_singleton.2 he), hpos⟩
    refine ⟨List.nodup_cons.2 ⟨fun hmem => (howed c hmem).1 rfl, hnodup⟩, ?_⟩
    exact List.forall_mem_cons.2 ⟨owed_pos hmints hm, fun c' hmem => (howed c' hmem).2⟩

/-- The distributor sends exactly the BAL that the L1Coordinator lacks for the debts of the
listed chains. Then BAL is never short in the middle of the loop; and if the call returns, it was
a run of the coordinators in which the debt of each listed chain was distributed, of no other,
once even if it was listed twice. With a Booster that mints nothing for no fees it does not
return for a list with a repeated chain or one without a debt. -/
theorem distribution_covered (hfees : TakesFees β n.l1.balToken)
    (hbooster : n.l1.booster ≠ n.l1.self) (haura : n.l1.auraToken ≠ n.l1.balToken)
    (hbal : d.balToken = n.l1.balToken) (h0 : d.self ≠ 0) (hself : d.self ≠ n.l1.self)
    (h : Run (fun _ _ => True) log n) (cs : List ChainId) :
    ((cs.map n.l1.owed).sum < 2 ^ 256 → d.shortfall n cs = .ok (lack n.l1 cs)) ∧
      (∀ k m, d.shortfall n cs = .ok k → d.topUp n k = .ok m →
        ∀ cs₁ c cs₂ m', cs = cs₁ ++ c :: cs₂ → d.distributeAll m cs₁ = .ok m' →
          m'.l1.owed c ≤ m'.l1.float) ∧
      ∀ sender n', d.distributeAura n sender cs = .ok n' →
        sender = d.distributor ∧
          Run (fun _ _ => True) (log ++ cs.map fun c => ⟨d.self, .l1 (.distributeAura c)⟩) n' ∧
          (∀ c, n'.l1.owed c = if c ∈ cs then 0 else n.l1.owed c) ∧
          n'.l1.float + ∑ c ∈ cs.toFinset, n.l1.owed c = n.l1.float + lack n.l1 cs ∧
          (MintsForFees β n.l1.auraToken → cs.Nodup ∧ ∀ c ∈ cs, 0 < n.l1.owed c) := by
  refine ⟨shortfall_of hbal fun c => (h.books c).distributed_le, ?_, ?_⟩
  · intro k m hk hm cs₁ c cs₂ m' hcs hd
    obtain ⟨-, howed, hfloat, hmself, hmbal, hmaura, hmbooster⟩ := topUp_eq_ok hbal hself hm
    refine owed_le_float (by rwa [hmbal]) (by rwa [hmbooster, hmself]) (by rwa [hmaura, hmbal])
      hcs ?_ hd
    rw [howed, hfloat, shortfall_eq_ok hbal hk]
    exact Nat.sub_le_iff_le_add'.1 le_rfl
  · intro sender n' hx
    obtain ⟨hsender, hx⟩ := require_bind_eq_ok.1 hx
    obtain ⟨k, hk, hx⟩ := bind_eq_ok.1 hx
    obtain ⟨m, hm, hd⟩ := bind_eq_ok.1 hx
    obtain ⟨helse, howed, hfloat, hmself, hmbal, hmaura, hmbooster⟩ := topUp_eq_ok hbal hself hm
    have hpays := pays_distributeAll (by rwa [hmbal]) (by rwa [hmbooster, hmself])
      (by rwa [hmaura, hmbal]) hd
    have hpaid := hpays.float
    refine ⟨hsender, run_distributeAll (.elsewhere h helse) h0 (by rwa [hmself]) hd,
      fun c => ?_, ?_, fun hmints => ?_⟩
    · rw [hpays.owed, howed]
      simp only [List.mem_toFinset]
    · rw [howed, hfloat, shortfall_eq_ok hbal hk] at hpaid
      exact hpaid
    · rw [← howed]
      exact nodup_of_distributeAll (by rwa [hmbal]) (by rwa [hmaura]) (by rwa [hmbooster, hmself])
        (by rwa [hmaura, hmbal]) hd

end AuraDistributor

/-! ### A run -/

theorem FeeBooster.takesFees {crv aura : Address} (h : crv ≠ aura) :
    TakesFees (FeeBooster crv aura) crv := by
  intro b booster sender n tokens r hne h'
  obtain ⟨-, h'⟩ := require_bind_eq_ok.1 h'
  obtain ⟨eligible, -, h'⟩ := bind_eq_ok.1 h'
  obtain ⟨t, ht, h'⟩ := bind_eq_ok.1 h'
  obtain ⟨amount, -, h'⟩ := bind_eq_ok.1 h'
  obtain ⟨x, -, h'⟩ := bind_eq_ok.1 h'
  cases h'
  obtain ⟨-, hle, hb, -⟩ := Erc20.transferFrom_eq_ok ht
  dsimp only
  rw [update_of_ne h, update_self, hb, move_src _ _ hne.symm]
  exact Nat.sub_add_cancel hle

/-- A distributor of the account `500`, with the BAL of `107`. -/
def auraDistributor : AuraDistributor where
  self := 107
  balToken := 102
  distributor := 500

/-- Fees of `110` become debt, and fees of another chain. None of their BAL has arrived. -/
def unpaidFees : List Event :=
  [⟨500, .l1 (.setDistributor 107 true)⟩, ⟨206, .l2 110 (.queueNewRewards 165 1000)⟩,
    ⟨600, .l2 110 .notifyFees⟩, ⟨600, .lzReceive (.toL1 110 (.fees 165))⟩,
    ⟨500, .l2 111 (.init 206 202)⟩, ⟨500, .l2 111 (.setTrustedRemote 101)⟩,
    ⟨500, .l2 111 (.setBridgeDelegate 207)⟩,
    ⟨500, .l1 (.setTrustedRemote 111)⟩, ⟨500, .l1 (.setL2Coordinator 111 201)⟩,
    ⟨206, .l2 111 (.queueNewRewards 70 1000)⟩, ⟨600, .l2 111 .notifyFees⟩,
    ⟨600, .lzReceive (.toL1 111 (.fees 70))⟩]

/-- The coordinator has no BAL and gets all that it pays for the two chains. A chain that is
listed twice makes the call revert. -/
theorem distribution_covered_run : ∃ n n' : Coordinators (FeeBooster 102 103),
    Run (fun _ _ => True) (setup 202 ++ unpaidFees) n ∧ n.l1.float = 0 ∧
      n.l1.owed 110 = 165 ∧ n.l1.owed 111 = 70 ∧
      auraDistributor.distributeAura n 500 [110, 111] = .ok n' ∧
      n'.l1.owed 110 = 0 ∧ n'.l1.owed 111 = 0 ∧ n'.l1.float = 0 ∧
      auraDistributor.distributeAura n 500 [110, 111, 110] = .error (.reason "!reward") := by
  have hvalues : (play (fun _ _ => True) deployment (setup 202 ++ unpaidFees)).map (fun n =>
      (n.l1.float, n.l1.owed 110, n.l1.owed 111,
        (auraDistributor.distributeAura n 500 [110, 111]).returns,
        (auraDistributor.distributeAura n 500 [110, 111, 110]).map fun _ => ())) =
      .ok (0, 165, 70, true, .error (.reason "!reward")) := by decide +kernel
  have haddresses : (play (fun _ _ => True) deployment (setup 202 ++ unpaidFees)).map (fun n =>
      (n.l1.self, n.l1.balToken, n.l1.auraToken, n.l1.booster)) = .ok (101, 102, 103, 106) := by
    decide +kernel
  obtain ⟨n, hn, hvalues⟩ := Tx.map_eq_ok.1 hvalues
  rw [hn] at haddresses
  have haddresses := Except.ok.inj haddresses
  simp only [Prod.mk.injEq] at hvalues haddresses
  obtain ⟨hfloat, h110, h111, hreturns, hrepeated⟩ := hvalues
  obtain ⟨hself, hbal, haura, hbooster⟩ := haddresses
  have h : Run (fun _ _ => True) ([] ++ (setup 202 ++ unpaidFees)) n :=
    (Run.deployed deployment_deployed).play hn
  obtain ⟨n', hx⟩ := Tx.exists_ok hreturns
  have hfees : TakesFees (FeeBooster 102 103) n.l1.balToken := by
    rw [hbal]
    exact FeeBooster.takesFees (by decide)
  obtain ⟨-, -, hdone⟩ := AuraDistributor.distribution_covered (d := auraDistributor) hfees
    (by rw [hself, hbooster]; decide) (by rw [hbal, haura]; decide) hbal.symm (by decide)
    (by rw [hself]; decide) h [110, 111]
  obtain ⟨-, -, hpaid, hbalance, -⟩ := hdone 500 n' hx
  have hfail : auraDistributor.distributeAura n 500 [110, 111, 110] =
      .error (.reason "!reward") := by
    cases hc : auraDistributor.distributeAura n 500 [110, 111, 110] with
    | error e =>
      rw [hc] at hrepeated
      exact congrArg Except.error (Except.error.inj hrepeated)
    | ok m =>
      rw [hc] at hrepeated
      cases hrepeated
  refine ⟨n, n', h, hfloat, h110, h111, hx, (hpaid 110).trans (if_pos (by decide)),
    (hpaid 111).trans (if_pos (by decide)), ?_, hfail⟩
  have hsum : ∑ c ∈ [(110 : ChainId), 111].toFinset, n.l1.owed c = 235 := by
    have hset : [(110 : ChainId), 111].toFinset = {110, 111} := by decide
    rw [hset, Finset.sum_pair (by decide), h110, h111]
  have hlack : AuraDistributor.lack n.l1 [110, 111] = 235 := by
    unfold AuraDistributor.lack
    rw [hfloat, List.map_cons, List.map_singleton, List.sum_cons, List.sum_singleton, h110, h111]
  rw [hsum, hfloat, hlack] at hbalance
  omega

end Aura.Sidechain
