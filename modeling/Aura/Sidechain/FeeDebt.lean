import Aura.Sidechain.Deployment
import Aura.Sidechain.Specs

/-!
# Sidechain : fees become debts

A fee that a sidechain queues is pending there, in a message that was not processed, or part
of the debt of that sidechain on the canonical chain (`Books.queued`). The debt has two
consumers, the distribution of AURA and the settlement in BAL, and neither gets ahead of
it. So a fee is distributed at most once, and for its own chain only.
-/

open Evm Function

namespace Aura.Sidechain

open Bridge (ChainId)

variable {β : Type} {n n' : Coordinators β} {log : List Event} {c : ChainId}

/-! ## Fees -/

/-- The fees that a call passes to the coordinator on `c`. -/
def Call.feesOn (c : ChainId) : Call → ℕ
  | .l2 chain d => if chain = c then d.fees else 0
  | _ => 0

/-- The fees ever passed to `queueNewRewards` on `c`. -/
def queuedFees (log : List Event) (c : ChainId) : ℕ :=
  (log.map fun e => e.call.feesOn c).sum

/-- The fees of `c` that a message carries. -/
def feesFrom (c : ChainId) : Message → ℕ
  | .toL1 srcChainId (.fees amount) => if srcChainId = c then amount else 0
  | _ => 0

/-- What a record has for `c`. -/
def recorded (xs : List (ChainId × ℕ)) (c : ChainId) : ℕ :=
  (xs.map fun x => if x.1 = c then x.2 else 0).sum

/-- A counter for every chain follows its record. -/
theorem recorded_cons {counter : ChainId → ℕ} {xs : List (ChainId × ℕ)}
    (h : recorded xs c = counter c) (c' : ChainId) (k : ℕ) :
    recorded ((c', k) :: xs) c = update counter c' (counter c' + k) c := by
  unfold recorded at h ⊢
  rw [List.map_cons, List.sum_cons, h]
  dsimp only
  by_cases hc : c' = c
  · subst hc
    rw [update_self, if_pos rfl, Nat.add_comm]
  · rw [update_of_ne (Ne.symm hc), if_neg hc, Nat.zero_add]

/-- A counter that is raised within its bound stays within its bound. -/
theorem update_le {counter bound : ChainId → ℕ} {c' : ChainId} {k : ℕ}
    (h : counter c ≤ bound c) (hk : k ≤ bound c') : update counter c' k c ≤ bound c := by
  by_cases hc : c = c'
  · subst hc
    rwa [update_self]
  · rwa [update_of_ne hc]

theorem queuedFees_append (log : List Event) (e : Event) (c : ChainId) :
    queuedFees (log ++ [e]) c = queuedFees log c + e.call.feesOn c := by
  unfold queuedFees
  rw [List.map_append, List.sum_append, List.map_singleton, List.sum_singleton]

/-- A receipt on the canonical chain raises the debt by what the message carries. -/
theorem feeDebt_conserved (c : ChainId) : Conserved (feesFrom c)
    (fun n : Coordinators β => (n.l2 c).pendingNotifyFees + n.l1.feeDebtOf c) where
  receive {n n' m} h := by
    obtain ⟨-, hl2⟩ := receive_delivered h
    obtain ⟨acc, tokens, hl2⟩ := hl2 c
    rw [hl2]
    dsimp only
    cases m with
    | toL1 c' p =>
      obtain ⟨l1, hp, h⟩ := bind_eq_ok.1 h
      cases h
      cases p with
      | feesCallback k =>
        cases hp
        rfl
      | fees k =>
        obtain ⟨x, hx, hp⟩ := bind_eq_ok.1 hp
        cases hp
        obtain ⟨-, rfl⟩ := uadd_eq_ok.1 hx
        unfold feesFrom
        dsimp only
        by_cases hc : c' = c
        · subst hc
          rw [update_self, if_pos rfl]
          omega
        · rw [update_of_ne (Ne.symm hc), if_neg hc]
          rfl
    | toL2 c' p =>
      obtain ⟨s, -, h⟩ := bind_eq_ok.1 h
      cases h
      rfl
    | oft c' bs k =>
      obtain ⟨s, -, h⟩ := bind_eq_ok.1 h
      cases h
      rfl
  messages _ _ := rfl

/-- Messages without fees carry none. -/
theorem feesFrom_eq_zero {m : Message} (h : ∀ c' k, m ≠ .toL1 c' (.fees k)) (c : ChainId) :
    feesFrom c m = 0 := by
  unfold feesFrom
  split
  · exact absurd rfl (h _ _)
  · rfl

/-! ## The books -/

/-- The books of a sidechain after the calls `log`. -/
structure Books (log : List Event) (n : Coordinators β) (c : ChainId) : Prop where
  /-- Every fee is pending, on its way, or a debt. -/
  queued : queuedFees log c =
    (n.l2 c).pendingNotifyFees + outstanding (feesFrom c) n + n.l1.feeDebtOf c
  settled_le : n.l1.settledFeeDebtOf c ≤ n.l1.feeDebtOf c
  distributed_le : n.l1.distributedFeeDebtOf c ≤ n.l1.feeDebtOf c
  distributed : recorded n.l1.distributed c = n.l1.distributedFeeDebtOf c
  pulled : recorded n.l1.pulled c = n.l1.settledFeeDebtOf c

theorem Coordinators.Deployed.books (h : n.Deployed) (c : ChainId) : Books [] n c where
  queued := by
    unfold outstanding
    rw [(h.l2 c).pendingNotifyFees, h.l1.feeDebtOf, h.mail, Mail.outstanding_empty]
    rfl
  settled_le := by rw [h.l1.settledFeeDebtOf]; exact Nat.zero_le _
  distributed_le := by rw [h.l1.distributedFeeDebtOf]; exact Nat.zero_le _
  distributed := by rw [h.l1.distributed, h.l1.distributedFeeDebtOf]; rfl
  pulled := by rw [h.l1.pulled, h.l1.settledFeeDebtOf]; rfl

theorem Books.elsewhere (h : Books log n c) (he : n.Elsewhere n') : Books log n' c := by
  obtain ⟨tokens, boosters, hl1⟩ := he.l1
  obtain ⟨tokens₂, hl2, -⟩ := he.l2 c
  have hqueued := h.queued
  obtain ⟨-, hs, hd, hds, hp⟩ := h
  constructor
  · rw [hl2, hl1, outstanding_congr he.mail]
    exact hqueued
  all_goals rw [hl1]; assumption

/-- The receipt of messages moves fees into the debt. -/
theorem Books.delivered {e : Event} (h : Books log n c) (hnone : ∀ c e', e.call ≠ .l2 c e')
    (hd : Delivered n n') (hsum : ∀ f g, Conserved f g →
      g n' + outstanding f n' = g n + outstanding f n) : Books (log ++ [e]) n' c := by
  have hfees : e.call.feesOn c = 0 := by
    unfold Call.feesOn
    split
    · next chain d hcall => exact absurd hcall (hnone chain d)
    · rfl
  have hsum := hsum _ _ (feeDebt_conserved c)
  have hqueued := h.queued
  obtain ⟨d, hl1, hle⟩ := hd.l1
  have hle := hle c
  refine ⟨?_, ?_, ?_, ?_, ?_⟩
  · rw [queuedFees_append, hfees]
    omega
  · rw [hl1]
    exact h.settled_le.trans hle
  · rw [hl1]
    exact h.distributed_le.trans hle
  · rw [hl1]
    exact h.distributed
  · rw [hl1]
    exact h.pulled

variable [Booster β]

/-- A call of the coordinator on the canonical chain leaves the debts, and pays within them. -/
theorem Books.l1 {e : Event} {d : L1Coordinator.Call} {s : L1Coordinator β} {ms : List Message}
    (h : Books log n c) (hcall : e.call = .l1 d) (hd : n.l1.Effect s d ms) :
    Books (log ++ [e]) ({ n with l1 := s }.sent ms) c := by
  have hfees : e.call.feesOn c = 0 := by rw [hcall]; rfl
  have hqueued := h.queued
  -- the calls differ in what they do to the books, but they send no fees
  suffices hs : s.feeDebtOf = n.l1.feeDebtOf ∧ (∀ m ∈ ms, feesFrom c m = 0) ∧
      s.settledFeeDebtOf c ≤ n.l1.feeDebtOf c ∧ s.distributedFeeDebtOf c ≤ n.l1.feeDebtOf c ∧
      recorded s.distributed c = s.distributedFeeDebtOf c ∧
      recorded s.pulled c = s.settledFeeDebtOf c by
    obtain ⟨hdebt, hms, hset, hdist, hrec, hpull⟩ := hs
    refine ⟨?_, hdebt ▸ hset, hdebt ▸ hdist, hrec, hpull⟩
    rw [queuedFees_append, hfees, outstanding_sent_of_forall _ hms]
    change _ = (n.l2 c).pendingNotifyFees + outstanding (feesFrom c) n + s.feeDebtOf c
    rw [hdebt]
    omega
  cases hd with
  | settings hd hq =>
    rw [hd.feeDebtOf, hd.settledFeeDebtOf, hd.distributedFeeDebtOf, hd.distributed, hd.pulled, hq]
    exact ⟨rfl, nofun, h.settled_le, h.distributed_le, h.distributed, h.pulled⟩
  | @settled c' k hd hq =>
    have hle := hd.le
    have hsettled := hd.settled_le
    rw [hd.feeDebtOf, hd.settledFeeDebtOf, hd.distributedFeeDebtOf, hd.distributed, hd.pulled, hq]
    exact ⟨rfl, nofun, update_le h.settled_le (by omega), h.distributed_le, h.distributed,
      recorded_cons h.pulled c' k⟩
  | @distributed c' r minted reward hd =>
    have hrecord :=
      recorded_cons h.distributed c' (n.l1.feeDebtOf c' - n.l1.distributedFeeDebtOf c')
    rw [Nat.add_sub_of_le hd.le] at hrecord
    rw [hd.feeDebtOf, hd.settledFeeDebtOf, hd.distributedFeeDebtOf, hd.distributed, hd.pulled]
    exact ⟨rfl, fun m hm => feesFrom_eq_zero (hd.fees m hm) c, h.settled_le,
      update_le h.distributed_le le_rfl, hrecord, h.pulled⟩

omit [Booster β] in
/-- A call of a coordinator on a sidechain takes fees in or sends them all. -/
theorem Books.l2 {e : Event} {c' : ChainId} {d : L2Coordinator.Call} {s : L2Coordinator}
    {ms : List Message} (h : Books log n c) (hcall : e.call = .l2 c' d)
    (hd : (n.l2 c').Effect s c' d ms) : Books (log ++ [e]) ((n.setL2 c' s).sent ms) c := by
  have hqueued := h.queued
  refine ⟨?_, h.settled_le, h.distributed_le, h.distributed, h.pulled⟩
  rw [queuedFees_append, outstanding_sent, hcall, hd.messages, hqueued]
  change _ = (update n.l2 c' s c).pendingNotifyFees +
    (outstanding (feesFrom c) n + _) + n.l1.feeDebtOf c
  unfold Call.feesOn
  dsimp only
  by_cases hc : c' = c
  · subst hc
    rw [update_self, hd.pendingNotifyFees, if_pos rfl]
    by_cases hn : d = .notifyFees
    · subst hn
      simp [feesFrom, L2Coordinator.Call.fees]
      omega
    · rw [if_neg hn, if_neg hn, List.map_nil, List.sum_nil]
      omega
  · rw [update_of_ne (Ne.symm hc), if_neg hc]
    by_cases hn : d = .notifyFees
    · rw [if_pos hn]
      simp [feesFrom, hc]
    · rw [if_neg hn]
      rfl

variable {P : Coordinators β → Call → Prop}

theorem Run.books (h : Run P log n) (c : ChainId) : Books log n c := by
  induction h with
  | deployed h => exact h.books c
  | elsewhere _ he ih => exact ih.elsewhere he
  | call _ hc _ hx ih =>
    cases exec_step hc hx with
    | l1 hd heq =>
      subst heq
      exact ih.l1 rfl hd
    | l2 hd heq =>
      subst heq
      exact ih.l2 rfl hd
    | delivery hnone hd hsum => exact ih.delivered hnone hd hsum

/-- The settings of the coordinator on the canonical chain. -/
theorem Run.settings (h : Run P log n) : n.l1.auraOFT ≠ n.l1.self ∧
    n.l1.rewardMultiplier ≤ L1Coordinator.rewardMultiplierDenominator := by
  induction h with
  | deployed h => exact ⟨h.l1.oft_ne, h.l1.rewardMultiplier.le⟩
  | elsewhere _ he ih =>
    obtain ⟨tokens, boosters, hl1⟩ := he.l1
    rwa [hl1]
  | call _ hc _ hx ih =>
    cases exec_step hc hx with
    | l1 hd heq =>
      subst heq
      cases hd with
      | settings hd hq => exact ⟨hd.auraOFT ▸ hd.self ▸ ih.1, hd.rewardMultiplier ih.2⟩
      | settled hd hq => exact ⟨hd.auraOFT ▸ hd.self ▸ ih.1, hd.rewardMultiplier.trans_le ih.2⟩
      | distributed hd => exact ⟨hd.auraOFT ▸ hd.self ▸ ih.1, hd.rewardMultiplier.trans_le ih.2⟩
    | l2 _ heq =>
      subst heq
      exact ih
    | delivery _ hd _ =>
      obtain ⟨d, hl1, -⟩ := hd.l1
      rwa [hl1]

/-- In every run the fees of each sidechain are conserved, they are distributed and settled
at most once, and the subtractions of the two functions do not underflow. -/
theorem fees_conserved (h : Run P log n) (c : ChainId) :
    Books log n c ∧ recorded n.l1.distributed c ≤ queuedFees log c ∧
    (∀ sender _amount, n.l1.settleFeeDebt sender c _amount ≠ .error .underflow) ∧
    (MintsToCaller β n.l1.auraToken → ∀ sender, n.l1.distributeAura sender c = .error .underflow →
      Booster.distributeL2Fees n.l1.boosters n.l1.booster n.l1.self
        (n.l1.feeDebtOf c - n.l1.distributedFeeDebtOf c) n.l1.tokens = .error .underflow) := by
  have hb := h.books c
  refine ⟨hb, ?_, L1Coordinator.settleFeeDebt_ne_underflow hb.settled_le, ?_⟩
  · have hqueued := hb.queued
    have hle := hb.distributed_le
    rw [hb.distributed]
    omega
  · intro hmint sender hu
    by_contra hbooster
    exact L1Coordinator.distributeAura_ne_underflow hmint h.settings.2 hb.distributed_le hbooster
      sender hu

/-- A run in which a message failed once and its fees were distributed. -/
theorem fees_conserved_run : ∃ n : Coordinators (FeeBooster 102 103),
    Run (fun _ _ => True) (setup 202 ++ feesToAura) n ∧
      queuedFees (setup 202 ++ feesToAura) 110 = 165 ∧ n.l1.feeDebtOf 110 = 165 ∧
      recorded n.l1.distributed 110 = 165 ∧ recorded n.l1.pulled 110 = 165 ∧
      ∀ sender, n.l1.distributeAura sender 110 ≠ .error .underflow := by
  obtain ⟨n, hn⟩ := Tx.exists_ok (show (play (fun _ _ => True) deployment
    (setup 202 ++ feesToAura)).returns = true by decide +kernel)
  have h : Run (fun _ _ => True) ([] ++ (setup 202 ++ feesToAura)) n :=
    (Run.deployed deployment_deployed).play hn
  have hv : (play (fun _ _ => True) deployment (setup 202 ++ feesToAura)).map (fun n =>
      (n.l1.feeDebtOf 110, n.l1.settledFeeDebtOf 110, n.l1.distributedFeeDebtOf 110,
        n.l1.auraToken, (Booster.distributeL2Fees n.l1.boosters n.l1.booster n.l1.self
          (n.l1.feeDebtOf 110 - n.l1.distributedFeeDebtOf 110) n.l1.tokens).returns)) =
      .ok (165, 165, 165, 103, true) := by
    decide +kernel
  rw [hn] at hv
  obtain ⟨hdebt, hsettled, hdistributed, htoken, hbooster⟩ : n.l1.feeDebtOf 110 = 165 ∧
      n.l1.settledFeeDebtOf 110 = 165 ∧ n.l1.distributedFeeDebtOf 110 = 165 ∧
      n.l1.auraToken = 103 ∧ (Booster.distributeL2Fees n.l1.boosters n.l1.booster n.l1.self
        (n.l1.feeDebtOf 110 - n.l1.distributedFeeDebtOf 110) n.l1.tokens).returns = true := by
    have hv := Except.ok.inj hv
    simpa using hv
  obtain ⟨hbooks, -, -, hu⟩ := fees_conserved h 110
  refine ⟨n, h, by decide, hdebt, ?_, ?_, fun sender hx => ?_⟩
  · rw [hbooks.distributed, hdistributed]
  · rw [hbooks.pulled, hsettled]
  · have hmint : MintsToCaller (FeeBooster 102 103) n.l1.auraToken := by
      rw [htoken]
      exact FeeBooster.mintsToCaller 102 103
    rw [hu hmint sender hx] at hbooster
    cases hbooster

end Aura.Sidechain
