import Aura.Gauges.GaugeVoteRewards
import Aura.ProRata
import Mathlib.Logic.Relation

/-!
# Gauges : what is handed out for an epoch

A gauge that is voted for twice keeps its last weight, while the total adds both up, and a
second vote in an epoch is possible only as long as all weights are zero. So the weights of
an epoch add up to at most the total, and what is handed out for it to at most the reward
(`rewards_bounded`).

What is handed out goes to the pool of each gauge (`Funds`), or into the message and the transfer
to the other chain (`Carries`).
-/

open Evm Function Finset Relation

namespace Aura.Gauges

open Bridge (ChainId)

namespace GaugeVoteRewards

/-- The AURA that the contract holds. -/
def balance (s : GaugeVoteRewards) : ℕ :=
  (s.tokens s.aura).balanceOf s.self

/-- The amounts of some payments. -/
def spent (ps : List Payment) : ℕ :=
  (ps.map Payment.amount).sum

/-- What was handed out for an epoch. -/
def handedOut (s : GaugeVoteRewards) (epoch : ℕ) : ℕ :=
  spent (s.payments.filter fun p => p.epoch = epoch)

/-- A call pays every gauge of its list its portion for the epoch, once and out of what the
contract holds. The last payment is the first of the list. -/
structure Pays (s s' : GaugeVoteRewards) (e : ℕ) (gauges : List Address)
    (new : List Payment) : Prop where
  payments : s'.payments = new ++ s.payments
  gauges : new.map Payment.gauge = gauges.reverse
  epoch : ∀ p ∈ new, p.epoch = e
  amount : ∀ p ∈ new, p.amount =
    s.rewardPerEpoch * s.getWeightByEpoch e p.gauge / s.getTotalWeight e
  balance : s.balance = s'.balance + spent new

/-- What payments add to the funds of a pool for each of two weeks : half of each amount, without
the wei that is kept for the week. -/
def poolFunds (getPoolId : Address → Pid) (new : List Payment) (pid : ℕ) : ℕ :=
  ((new.filter fun p => (getPoolId p.gauge).value = pid).map fun p => (p.amount - 2) / 2).sum

/-- The payments went to the pools of their gauges : `StashRewardDistro` has the tokens, and the
pools are funded for the two coming weeks. -/
structure Funds (s s' : GaugeVoteRewards) (new : List Payment) : Prop where
  isSet : ∀ p ∈ new, (s.getPoolId p.gauge).isSet = true
  received : (s'.tokens s.aura).balanceOf s.stashRewardDistro.self =
    (s.tokens s.aura).balanceOf s.stashRewardDistro.self + spent new
  getFunds : ∀ e pid token, s'.stashRewardDistro.getFunds e pid token =
    s.stashRewardDistro.getFunds e pid token +
      if token = s.aura ∧ s.now / StashRewardDistro.epochDuration < e ∧
          e ≤ s.now / StashRewardDistro.epochDuration + 2 then
        poolFunds s.getPoolId new pid
      else 0

/-- A message carries the payments : the recipient of each gauge with its amount, in the order of
the gauges, and the proxy of AURA has the total. -/
structure Carries (s s' : GaugeVoteRewards) (m : Sent) (epoch : ℕ) (c : ChainId)
    (new : List Payment) : Prop where
  dstChainId : m.dstChainId = c
  epoch : m.epoch = epoch
  recipient : m.recipient = s.getChildGaugeVoteRewards c
  payloads : m.payloads = new.reverse.map fun p => (s.getRecipient p.gauge, p.amount)
  amount : m.amount = spent new
  received : (s'.tokens s.aura).balanceOf s.auraOFT =
    (s.tokens s.aura).balanceOf s.auraOFT + spent new

/-- The votes and what was processed and paid is the same. -/
structure Same (s s' : GaugeVoteRewards) : Prop where
  self : s'.self = s.self
  aura : s'.aura = s.aura
  auraOFT : s'.auraOFT = s.auraOFT
  distro : s'.stashRewardDistro.self = s.stashRewardDistro.self
  getWeightByEpoch : s'.getWeightByEpoch = s.getWeightByEpoch
  isProcessed : s'.isProcessed = s.isProcessed
  getTotalWeight : s'.getTotalWeight = s.getTotalWeight
  payments : s'.payments = s.payments

/-- A gauge was paid for an epoch. -/
structure Paid (s s' : GaugeVoteRewards) (p : Payment) : Prop where
  now : s'.now = s.now
  getPoolId : s'.getPoolId = s.getPoolId
  getRecipient : s'.getRecipient = s.getRecipient
  self : s'.self = s.self
  aura : s'.aura = s.aura
  auraOFT : s'.auraOFT = s.auraOFT
  distro : s'.stashRewardDistro.self = s.stashRewardDistro.self
  rewardPerEpoch : s'.rewardPerEpoch = s.rewardPerEpoch
  getWeightByEpoch : s'.getWeightByEpoch = s.getWeightByEpoch
  getTotalWeight : s'.getTotalWeight = s.getTotalWeight
  fresh : s.isProcessed p.epoch p.gauge = false
  isProcessed : s'.isProcessed =
    update s.isProcessed p.epoch (update (s.isProcessed p.epoch) p.gauge true)
  voted : s.getTotalWeight p.epoch ≠ 0
  amount : p.amount = ProRata.portion s.rewardPerEpoch (s.getTotalWeight p.epoch)
    (s.getWeightByEpoch p.epoch p.gauge)
  amount_ne : p.amount ≠ 0
  payments : s'.payments = p :: s.payments

/-- A vote for an epoch without a total : the weights add up to at most the new one. -/
structure Voted (s s' : GaugeVoteRewards) (epoch : ℕ) : Prop where
  self : s'.self = s.self
  auraOFT : s'.auraOFT = s.auraOFT
  distro : s'.stashRewardDistro.self = s.stashRewardDistro.self
  rewardPerEpoch : s'.rewardPerEpoch = s.rewardPerEpoch
  unvoted : s.getTotalWeight epoch = 0
  weights : (∑ g, s.getWeightByEpoch epoch g ≤ s.getTotalWeight epoch) →
    ∑ g, s'.getWeightByEpoch epoch g ≤ s'.getTotalWeight epoch
  others : ∀ e, e ≠ epoch → s'.getWeightByEpoch e = s.getWeightByEpoch e ∧
    s'.getTotalWeight e = s.getTotalWeight e
  isProcessed : s'.isProcessed = s.isProcessed
  payments : s'.payments = s.payments

variable {s s' : GaugeVoteRewards} {sender : Address} {epoch : ℕ}

/-! ## The functions -/

theorem calculateAmountToSend_eq_ok {gauge : Address} {r : GaugeVoteRewards × ℕ}
    (h : s._calculateAmountToSend epoch gauge = .ok r) :
    s.isProcessed epoch gauge = false ∧ s.getTotalWeight epoch ≠ 0 ∧ r.2 ≠ 0 ∧
      r.2 = ProRata.portion s.rewardPerEpoch (s.getTotalWeight epoch)
        (s.getWeightByEpoch epoch gauge) ∧
      r.1 = { s with
        isProcessed := update s.isProcessed epoch (update (s.isProcessed epoch) gauge true) } := by
  unfold _calculateAmountToSend _getAmountToSend at h
  obtain ⟨n, hn, h⟩ := bind_eq_ok.1 h
  obtain ⟨h0, h⟩ := require_bind_eq_ok.1 h
  obtain ⟨hp, h⟩ := require_bind_eq_ok.1 h
  cases h
  obtain ⟨x, hx, hn⟩ := bind_eq_ok.1 hn
  obtain ⟨-, rfl⟩ := umul_eq_ok.1 hx
  obtain ⟨hT, rfl⟩ := udiv_eq_ok.1 hn
  exact ⟨hp, hT, h0, rfl, rfl⟩

theorem poolFunds_append (f : Address → Pid) (ps qs : List Payment) (pid : ℕ) :
    poolFunds f (ps ++ qs) pid = poolFunds f ps pid + poolFunds f qs pid := by
  unfold poolFunds
  rw [List.filter_append, List.map_append, List.sum_append]

/-- A payment funds the pool of its gauge. -/
theorem processGauge_eq_ok {gauge : Address} (h : processGauge epoch s gauge = .ok s') :
    ∃ p, p.epoch = epoch ∧ p.gauge = gauge ∧ Paid s s' p ∧
      (s.stashRewardDistro.self ≠ s.self →
        s.balance = s'.balance + p.amount ∧ Funds s s' [p]) := by
  unfold processGauge at h
  obtain ⟨-, h⟩ := require_bind_eq_ok.1 h
  obtain ⟨-, h⟩ := require_bind_eq_ok.1 h
  obtain ⟨⟨s₁, n⟩, h₁, h⟩ := bind_eq_ok.1 h
  obtain ⟨hset, h⟩ := require_bind_eq_ok.1 h
  obtain ⟨f, hf, h⟩ := bind_eq_ok.1 h
  cases h
  obtain ⟨hfresh, hT, h0, hn, hs₁⟩ := calculateAmountToSend_eq_ok h₁
  dsimp only at hs₁ hf hset
  subst hs₁
  obtain ⟨hself, hle, hb, -⟩ := StashRewardDistro.fundPool_eq_ok hf
  refine ⟨⟨epoch, gauge, n⟩, rfl, rfl, ⟨rfl, rfl, rfl, rfl, rfl, rfl, hself, rfl, rfl, rfl, hfresh,
    rfl, hT, hn, h0, rfl⟩, fun hne => ⟨?_, ?_, ?_, fun e pid token => ?_⟩⟩
  · have hmove : (f.2 s.aura).balanceOf s.self = s.balance - n := by
      rw [hb, move_src _ _ hne.symm]
      rfl
    show s.balance = (f.2 s.aura).balanceOf s.self + n
    rw [hmove]
    exact (Nat.sub_add_cancel hle).symm
  · simpa using hset
  · show (f.2 s.aura).balanceOf _ = _ + (n + 0)
    rw [hb, move_dst _ _ hne.symm, Nat.add_zero]
  · refine (StashRewardDistro.fundPool_getFunds hf e pid token).trans ?_
    dsimp only
    by_cases hp : (s.getPoolId gauge).value = pid
    · simp [poolFunds, hp]
    · simp [poolFunds, hp, Ne.symm hp]

theorem processSidechainGauge_eq_ok {c : ChainId} {b b' : Batch} {gauge : Address}
    (h : processSidechainGauge epoch c b gauge = .ok b') :
    ∃ p, p.epoch = epoch ∧ p.gauge = gauge ∧ Paid b.state b'.state p ∧
      b'.totalAmountToSend = b.totalAmountToSend + p.amount ∧
      b'.payloads = b.payloads ++ [(b.state.getRecipient p.gauge, p.amount)] ∧
      b'.state.tokens = b.state.tokens := by
  unfold processSidechainGauge at h
  obtain ⟨-, h⟩ := require_bind_eq_ok.1 h
  obtain ⟨⟨s₁, n⟩, h₁, h⟩ := bind_eq_ok.1 h
  obtain ⟨t, ht, h⟩ := bind_eq_ok.1 h
  obtain ⟨-, rfl⟩ := uadd_eq_ok.1 ht
  cases h
  obtain ⟨hfresh, hT, h0, hn, rfl⟩ := calculateAmountToSend_eq_ok h₁
  exact ⟨⟨epoch, gauge, n⟩, rfl, rfl, ⟨rfl, rfl, rfl, rfl, rfl, rfl, rfl, rfl, rfl, rfl, hfresh,
    rfl, hT, hn, h0, rfl⟩, rfl, rfl, rfl⟩

/-- The weights that a vote has stored add up to at most the deposit weight it has counted. -/
structure Tallying (s : GaugeVoteRewards) (epoch : ℕ) (r : Tally) : Prop where
  rest : r.state = { s with getWeightByEpoch := r.state.getWeightByEpoch }
  others : ∀ e, e ≠ epoch → r.state.getWeightByEpoch e = s.getWeightByEpoch e
  weights : ∑ g, r.state.getWeightByEpoch epoch g ≤
    ∑ g, s.getWeightByEpoch epoch g + r.totalDepositWeight

/-- A weight replaces another. -/
theorem sum_update_le {A : Type} [Fintype A] [DecidableEq A] {f : A → ℕ} {t n : ℕ} (a : A)
    (w : ℕ) (h : ∑ g, f g ≤ t + n) : ∑ g, update f a w g ≤ t + (n + w) := by
  have hsum := sum_update_add f a w
  omega

theorem Tallying.round {r r' : Tally} {v : Address × ℕ} (h : Tallying s epoch r)
    (hr : voteGauge epoch r v = .ok r') : Tallying s epoch r' := by
  unfold voteGauge at hr
  obtain ⟨n, -, hr⟩ := bind_eq_ok.1 hr
  split_ifs at hr
  · cases hr
    exact ⟨h.rest, h.others, h.weights⟩
  · obtain ⟨-, hr⟩ := require_bind_eq_ok.1 hr
    obtain ⟨t, ht, hr⟩ := bind_eq_ok.1 hr
    obtain ⟨-, rfl⟩ := uadd_eq_ok.1 ht
    cases hr
    refine ⟨?_, fun e he => ?_, ?_⟩
    · dsimp only
      conv_lhs => rw [h.rest]
    · dsimp only
      rw [update_of_ne he]
      exact h.others e he
    · dsimp only
      rw [update_self]
      exact sum_update_le v.1 v.2 h.weights

theorem voteGaugeWeight_eq_ok {gs : List Address} {ws : List ℕ}
    (h : s.voteGaugeWeight sender gs ws = .ok s') : Voted s s' s._getCurrentEpoch := by
  unfold voteGaugeWeight at h
  obtain ⟨-, -, h⟩ := bind_eq_ok.1 h
  obtain ⟨-, h⟩ := require_bind_eq_ok.1 h
  obtain ⟨-, h⟩ := require_bind_eq_ok.1 h
  obtain ⟨h0, h⟩ := require_bind_eq_ok.1 h
  obtain ⟨r, hr, h⟩ := bind_eq_ok.1 h
  obtain ⟨-, h⟩ := require_bind_eq_ok.1 h
  cases h
  have ht : Tallying s s._getCurrentEpoch r :=
    foldlM_keeps (Tallying s s._getCurrentEpoch) (fun _ _ _ _ ht hx => ht.round hx)
      ⟨rfl, fun _ _ => rfl, Nat.le_add_right _ _⟩ hr
  have hrest := ht.rest
  refine ⟨by rw [hrest], by rw [hrest], by rw [hrest], by rw [hrest], h0, fun hle => ?_,
    fun e he => ⟨ht.others e he, ?_⟩, by rw [hrest], by rw [hrest]⟩
  · dsimp only
    rw [update_self]
    refine ht.weights.trans ?_
    rw [Nat.le_zero.1 (hle.trans h0.le), Nat.zero_add]
  · dsimp only
    rw [update_of_ne he, hrest]

/-! ## Lists of gauges -/

@[simp] theorem spent_append (ps qs : List Payment) : spent (ps ++ qs) = spent ps + spent qs := by
  simp [spent]

@[simp] theorem spent_singleton (p : Payment) : spent [p] = p.amount :=
  Nat.add_zero _

/-- Nothing is paid. -/
theorem Pays.nil (s : GaugeVoteRewards) (epoch : ℕ) : Pays s s epoch [] [] :=
  ⟨rfl, rfl, by simp, by simp, rfl⟩

/-- One more gauge is paid before the others. -/
theorem Pays.cons {s₁ : GaugeVoteRewards} {p : Payment} {gauges : List Address}
    {new : List Payment} (hp : Paid s s₁ p) (hepoch : p.epoch = epoch)
    (hbalance : s.balance = s₁.balance + p.amount) (h : Pays s₁ s' epoch gauges new) :
    Pays s s' epoch (p.gauge :: gauges) (new ++ [p]) where
  payments := by rw [h.payments, hp.payments, List.append_assoc, List.singleton_append]
  gauges := by rw [List.map_append, h.gauges, List.reverse_cons, List.map_singleton]
  epoch q hq := by
    rcases List.mem_append.1 hq with hq | hq
    · exact h.epoch q hq
    · rw [List.mem_singleton.1 hq]
      exact hepoch
  amount q hq := by
    rcases List.mem_append.1 hq with hq | hq
    · rw [h.amount q hq, hp.rewardPerEpoch, hp.getWeightByEpoch, hp.getTotalWeight]
    · rw [List.mem_singleton.1 hq, hp.amount, hepoch]
      exact rfl
  balance := by
    rw [hbalance, h.balance, spent_append, spent_singleton]
    omega

/-- What the pools got of the first payment and of the others. -/
theorem Funds.cons {s₁ : GaugeVoteRewards} {p : Payment} {new : List Payment} (hp : Paid s s₁ p)
    (h₁ : Funds s s₁ [p]) (h : Funds s₁ s' new) : Funds s s' (new ++ [p]) where
  isSet q hq := by
    rcases List.mem_append.1 hq with hq | hq
    · rw [← hp.getPoolId]
      exact h.isSet q hq
    · exact h₁.isSet q hq
  received := by
    have hrest := h.received
    rw [hp.aura, hp.distro, h₁.received] at hrest
    rw [hrest, spent_append, spent_singleton]
    omega
  getFunds e pid token := by
    rw [h.getFunds, h₁.getFunds, hp.aura, hp.now, hp.getPoolId, poolFunds_append]
    split_ifs <;> omega

theorem processGauges_eq_ok :
    ∀ {gauges : List Address} {s s' : GaugeVoteRewards}, s.stashRewardDistro.self ≠ s.self →
      gauges.foldlM (processGauge epoch) s = .ok s' →
        ∃ new, Pays s s' epoch gauges new ∧ Funds s s' new
  | [], s, s', _, h => by
    cases h
    exact ⟨[], .nil s epoch, by simp, rfl, fun e pid token => by simp [poolFunds]⟩
  | g :: gauges, s, s', hne, h => by
    rw [List.foldlM_cons] at h
    obtain ⟨s₁, h₁, h₂⟩ := bind_eq_ok.1 h
    obtain ⟨p, hepoch, rfl, hp, hbal⟩ := processGauge_eq_ok h₁
    obtain ⟨hbalance, hfunds⟩ := hbal hne
    obtain ⟨new, hpays, hrest⟩ := processGauges_eq_ok (by rw [hp.distro, hp.self]; exact hne) h₂
    exact ⟨new ++ [p], hpays.cons hp hepoch hbalance, hfunds.cons hp hrest⟩

/-- What the loop of `processSidechainGaugeRewards` gathers : nothing moves yet. -/
structure Gathered (s : GaugeVoteRewards) (b b' : Batch) (new : List Payment) : Prop where
  totalAmountToSend : b'.totalAmountToSend = b.totalAmountToSend + spent new
  payloads : b'.payloads = b.payloads ++ new.reverse.map fun p => (s.getRecipient p.gauge, p.amount)
  tokens : b'.state.tokens = b.state.tokens
  self : b'.state.self = b.state.self
  aura : b'.state.aura = b.state.aura
  auraOFT : b'.state.auraOFT = b.state.auraOFT

/-- The payments of the loop, with the balance that pays for them later. -/
theorem processSidechainGauges_eq_ok {c : ChainId} :
    ∀ {gauges : List Address} {b b' : Batch},
      gauges.foldlM (processSidechainGauge epoch c) b = .ok b' →
      ∃ new, b'.state.payments = new ++ b.state.payments ∧
        new.map Payment.gauge = gauges.reverse ∧
        (∀ p ∈ new, p.epoch = epoch ∧ p.amount = b.state.rewardPerEpoch *
          b.state.getWeightByEpoch epoch p.gauge / b.state.getTotalWeight epoch) ∧
        Gathered b.state b b' new
  | [], b, b', h => by
    cases h
    exact ⟨[], rfl, rfl, by simp, rfl, (List.append_nil _).symm, rfl, rfl, rfl, rfl⟩
  | g :: gauges, b, b', h => by
    rw [List.foldlM_cons] at h
    obtain ⟨b₁, h₁, h₂⟩ := bind_eq_ok.1 h
    obtain ⟨p, hepoch, rfl, hp, htotal, hpayloads, htokens⟩ := processSidechainGauge_eq_ok h₁
    obtain ⟨new, hn, hmap, hnew, hg⟩ := processSidechainGauges_eq_ok h₂
    refine ⟨new ++ [p], ?_, ?_, fun q hq => ?_, ?_, ?_, hg.tokens.trans htokens,
      hg.self.trans hp.self, hg.aura.trans hp.aura, hg.auraOFT.trans hp.auraOFT⟩
    · rw [hn, hp.payments, List.append_assoc, List.singleton_append]
    · rw [List.map_append, hmap, List.reverse_cons, List.map_singleton]
    · rcases List.mem_append.1 hq with hq | hq
      · rw [← hp.rewardPerEpoch, ← hp.getWeightByEpoch, ← hp.getTotalWeight]
        exact hnew q hq
      · rw [List.mem_singleton.1 hq]
        exact ⟨hepoch, hepoch ▸ hp.amount⟩
    · rw [hg.totalAmountToSend, htotal, spent_append, spent_singleton]
      omega
    · rw [hg.payloads, hpayloads, hp.getRecipient, List.append_assoc, List.reverse_append]
      rfl

theorem processGaugeRewards_pays {gauges : List Address} (hne : s.stashRewardDistro.self ≠ s.self)
    (h : s.processGaugeRewards sender epoch gauges = .ok s') :
    ∃ new, Pays s s' epoch gauges new ∧ Funds s s' new := by
  obtain ⟨-, -, h⟩ := bind_eq_ok.1 h
  obtain ⟨-, h⟩ := require_bind_eq_ok.1 h
  exact processGauges_eq_ok hne h

theorem processSidechainGaugeRewards_pays {gauges : List Address} {c : ChainId}
    {r : GaugeVoteRewards × Sent} (hne : s.auraOFT ≠ s.self)
    (h : s.processSidechainGaugeRewards sender gauges epoch c = .ok r) :
    ∃ new, Pays s r.1 epoch gauges new ∧ Carries s r.1 r.2 epoch c new := by
  obtain ⟨-, -, h⟩ := bind_eq_ok.1 h
  obtain ⟨-, h⟩ := require_bind_eq_ok.1 h
  obtain ⟨b, hb, h⟩ := bind_eq_ok.1 h
  obtain ⟨-, -, h⟩ := bind_eq_ok.1 h
  obtain ⟨t, ht, h⟩ := bind_eq_ok.1 h
  cases h
  obtain ⟨new, hn, hmap, hnew, hg⟩ := processSidechainGauges_eq_ok hb
  obtain ⟨hspent, hpayloads, htokens, hs, ha, ho⟩ := hg
  rw [htokens, hs, ha, ho] at ht
  obtain ⟨-, hle, hbal, -⟩ := Erc20.transferFrom_eq_ok ht
  rw [Nat.zero_add] at hspent
  have hledger : update b.state.tokens b.state.aura t s.aura = t := by
    rw [ha, update_self]
  refine ⟨new, ⟨hn, hmap, fun p hp => (hnew p hp).1, fun p hp => (hnew p hp).2, ?_⟩,
    rfl, rfl, rfl, hpayloads, hspent, ?_⟩
  · have hmove : t.balanceOf s.self = s.balance - spent new := by
      rw [hbal, move_src _ _ hne.symm, hspent]
      rfl
    have hbalance : (update b.state.tokens b.state.aura t b.state.aura).balanceOf b.state.self =
        t.balanceOf s.self := by
      rw [update_self, hs]
    rw [hspent] at hle
    show s.balance = (update b.state.tokens b.state.aura t b.state.aura).balanceOf b.state.self + _
    rw [hbalance, hmove]
    exact (Nat.sub_add_cancel hle).symm
  · show (update b.state.tokens b.state.aura t s.aura).balanceOf s.auraOFT = _
    rw [hledger, hbal, move_dst _ _ hne.symm, hspent]

/-! ## Every run -/

/-- What holds in every run : the weights of an epoch add up to at most its total, and every
payment is the portion of a gauge that is marked as processed. -/
structure Sound (R : ℕ) (s : GaugeVoteRewards) : Prop where
  distro_ne : s.stashRewardDistro.self ≠ s.self
  oft_ne : s.auraOFT ≠ s.self
  reward : s.rewardPerEpoch = 0 ∨ s.rewardPerEpoch = R
  weights : ∀ e, ∑ g, s.getWeightByEpoch e g ≤ s.getTotalWeight e
  marked : ∀ p ∈ s.payments, s.isProcessed p.epoch p.gauge = true
  voted : ∀ p ∈ s.payments, s.getTotalWeight p.epoch ≠ 0
  amount : ∀ p ∈ s.payments, p.amount =
    ProRata.portion R (s.getTotalWeight p.epoch) (s.getWeightByEpoch p.epoch p.gauge)
  nodup : (s.payments.map fun p => (p.epoch, p.gauge)).Nodup

/-- Once there is a total, the votes of an epoch are fixed. -/
def Frozen (s s' : GaugeVoteRewards) : Prop :=
  ∀ e, s.getTotalWeight e ≠ 0 →
    s'.getTotalWeight e = s.getTotalWeight e ∧ s'.getWeightByEpoch e = s.getWeightByEpoch e

/-- The changes that calls are made of, but for the setting of the reward. -/
inductive Change (s s' : GaugeVoteRewards) : Prop
  | same : Same s s' → s'.rewardPerEpoch = s.rewardPerEpoch → Change s s'
  | voted (epoch : ℕ) : Voted s s' epoch → Change s s'
  | paid (p : Payment) : Paid s s' p → Change s s'

variable {R : ℕ}

theorem Sound.same (h : Sound R s) (hs : Same s s')
    (hr : s'.rewardPerEpoch = 0 ∨ s'.rewardPerEpoch = R) : Sound R s' where
  distro_ne := by rw [hs.distro, hs.self]; exact h.distro_ne
  oft_ne := by rw [hs.auraOFT, hs.self]; exact h.oft_ne
  reward := hr
  weights := by rw [hs.getWeightByEpoch, hs.getTotalWeight]; exact h.weights
  marked := by rw [hs.payments, hs.isProcessed]; exact h.marked
  voted := by rw [hs.payments, hs.getTotalWeight]; exact h.voted
  amount := by rw [hs.payments, hs.getTotalWeight, hs.getWeightByEpoch]; exact h.amount
  nodup := by rw [hs.payments]; exact h.nodup

theorem Sound.paid {p : Payment} (h : Sound R s) (hp : Paid s s' p) : Sound R s' where
  distro_ne := by rw [hp.distro, hp.self]; exact h.distro_ne
  oft_ne := by rw [hp.auraOFT, hp.self]; exact h.oft_ne
  reward := by rw [hp.rewardPerEpoch]; exact h.reward
  weights := by rw [hp.getWeightByEpoch, hp.getTotalWeight]; exact h.weights
  marked := by
    rw [hp.payments, hp.isProcessed]
    refine List.forall_mem_cons.2 ⟨by rw [update_self, update_self], fun q hq => ?_⟩
    have hmarked := h.marked q hq
    by_cases he : q.epoch = p.epoch
    · rw [he, update_self]
      rw [he] at hmarked
      by_cases hg : q.gauge = p.gauge
      · rw [hg, update_self]
      · rwa [update_of_ne hg]
    · rwa [update_of_ne he]
  voted := by
    rw [hp.payments, hp.getTotalWeight]
    exact List.forall_mem_cons.2 ⟨hp.voted, h.voted⟩
  amount := by
    rw [hp.payments, hp.getTotalWeight, hp.getWeightByEpoch]
    refine List.forall_mem_cons.2 ⟨?_, h.amount⟩
    rcases h.reward with h0 | hR
    · -- nothing is paid out of no reward
      have hamount := hp.amount
      rw [h0, ProRata.portion, Nat.zero_mul, Nat.zero_div] at hamount
      exact absurd hamount hp.amount_ne
    · rw [← hR]
      exact hp.amount
  nodup := by
    rw [hp.payments, List.map_cons, List.nodup_cons]
    refine ⟨fun hmem => ?_, h.nodup⟩
    obtain ⟨q, hq, heq⟩ := List.mem_map.1 hmem
    obtain ⟨he, hg⟩ := Prod.mk.inj heq
    have hmarked := h.marked q hq
    rw [he, hg, hp.fresh] at hmarked
    cases hmarked

theorem Sound.vote {e : ℕ} (h : Sound R s) (hv : Voted s s' e) : Sound R s' := by
  -- the payments are for other epochs
  have hne (p : Payment) (hp : p ∈ s.payments) : p.epoch ≠ e := fun he =>
    h.voted p hp (he ▸ hv.unvoted)
  refine ⟨by rw [hv.distro, hv.self]; exact h.distro_ne,
    by rw [hv.auraOFT, hv.self]; exact h.oft_ne,
    by rw [hv.rewardPerEpoch]; exact h.reward, fun e' => ?_,
    by rw [hv.payments, hv.isProcessed]; exact h.marked, ?_, ?_, by rw [hv.payments]; exact h.nodup⟩
  · by_cases he : e' = e
    · rw [he]
      exact hv.weights (h.weights e)
    · obtain ⟨hw, ht⟩ := hv.others e' he
      rw [hw, ht]
      exact h.weights e'
  · intro p hp
    rw [hv.payments] at hp
    rw [(hv.others _ (hne p hp)).2]
    exact h.voted p hp
  · intro p hp
    rw [hv.payments] at hp
    obtain ⟨hw, ht⟩ := hv.others _ (hne p hp)
    rw [hw, ht]
    exact h.amount p hp

theorem Same.refl (s : GaugeVoteRewards) : Same s s :=
  ⟨rfl, rfl, rfl, rfl, rfl, rfl, rfl, rfl⟩

theorem setPoolIds_same {i j : ℕ} (h : s.setPoolIds i j = .ok s') :
    Same s s' ∧ s'.rewardPerEpoch = s.rewardPerEpoch := by
  refine foldlM_keeps (P := fun s' => Same s s' ∧ s'.rewardPerEpoch = s.rewardPerEpoch)
    (fun k _ s₁ s₂ hs hx => ?_) ⟨.refl s, rfl⟩ h
  obtain ⟨gauge, -, hx⟩ := bind_eq_ok.1 hx
  cases hx
  exact ⟨⟨hs.1.self, hs.1.aura, hs.1.auraOFT, hs.1.distro, hs.1.getWeightByEpoch,
    hs.1.isProcessed, hs.1.getTotalWeight, hs.1.payments⟩, hs.2⟩

/-- A loop over the gauges is a sequence of payments. -/
theorem processGaugeRewards_changes {gauges : List Address}
    (h : s.processGaugeRewards sender epoch gauges = .ok s') : ReflTransGen Change s s' := by
  obtain ⟨-, -, h⟩ := bind_eq_ok.1 h
  obtain ⟨-, h⟩ := require_bind_eq_ok.1 h
  refine foldlM_keeps (P := ReflTransGen Change s) (fun g _ s₁ s₂ hs hx => ?_) .refl h
  obtain ⟨p, -, -, hp, -⟩ := processGauge_eq_ok hx
  exact hs.tail (.paid p hp)

theorem processSidechainGaugeRewards_changes {gauges : List Address} {c : ChainId}
    {r : GaugeVoteRewards × Sent}
    (h : s.processSidechainGaugeRewards sender gauges epoch c = .ok r) :
    ReflTransGen Change s r.1 := by
  obtain ⟨-, -, h⟩ := bind_eq_ok.1 h
  obtain ⟨-, h⟩ := require_bind_eq_ok.1 h
  obtain ⟨b, hb, h⟩ := bind_eq_ok.1 h
  obtain ⟨-, -, h⟩ := bind_eq_ok.1 h
  obtain ⟨t, -, h⟩ := bind_eq_ok.1 h
  cases h
  have hloop : ReflTransGen Change s b.state := by
    refine foldlM_keeps (P := fun b => ReflTransGen Change s b.state)
      (fun g _ b₁ b₂ hs hx => ?_) .refl hb
    obtain ⟨p, -, -, hp, -⟩ := processSidechainGauge_eq_ok hx
    exact hs.tail (.paid p hp)
  exact hloop.tail (.same ⟨rfl, rfl, rfl, rfl, rfl, rfl, rfl, rfl⟩ rfl)

/-- A call that does not set the reward is a sequence of changes. -/
theorem exec_changes {c : Call} (hc : ∀ n, c ≠ .setRewardPerEpoch n)
    (h : s.exec sender c = .ok s') : ReflTransGen Change s s' := by
  cases c with
  | setDistributor _ =>
    obtain ⟨-, -, h⟩ := bind_eq_ok.1 h
    cases h
    exact .single (.same ⟨rfl, rfl, rfl, rfl, rfl, rfl, rfl, rfl⟩ rfl)
  | setRewardPerEpoch n => exact absurd rfl (hc n)
  | setIsNoDepositGauge _ _ =>
    obtain ⟨-, -, h⟩ := bind_eq_ok.1 h
    cases h
    exact .single (.same ⟨rfl, rfl, rfl, rfl, rfl, rfl, rfl, rfl⟩ rfl)
  | setChildGaugeVoteRewards _ _ =>
    obtain ⟨-, -, h⟩ := bind_eq_ok.1 h
    obtain ⟨-, h⟩ := require_bind_eq_ok.1 h
    cases h
    exact .single (.same ⟨rfl, rfl, rfl, rfl, rfl, rfl, rfl, rfl⟩ rfl)
  | setDstChainId _ _ =>
    obtain ⟨-, -, h⟩ := bind_eq_ok.1 h
    obtain ⟨-, h⟩ := require_bind_eq_ok.1 h
    cases h
    exact .single (.same ⟨rfl, rfl, rfl, rfl, rfl, rfl, rfl, rfl⟩ rfl)
  | setPoolIds i j =>
    obtain ⟨hs, hr⟩ := setPoolIds_same h
    exact .single (.same hs hr)
  | voteGaugeWeight _ _ => exact .single (.voted _ (voteGaugeWeight_eq_ok h))
  | processGaugeRewards _ _ => exact processGaugeRewards_changes h
  | processSidechainGaugeRewards _ _ _ =>
    obtain ⟨r, hr, h⟩ := bind_eq_ok.1 h
    cases h
    exact processSidechainGaugeRewards_changes hr
  | transferERC20 _ _ _ =>
    obtain ⟨-, -, h⟩ := bind_eq_ok.1 h
    obtain ⟨t, -, h⟩ := bind_eq_ok.1 h
    cases h
    exact .single (.same ⟨rfl, rfl, rfl, rfl, rfl, rfl, rfl, rfl⟩ rfl)

theorem Elsewhere.same (h : Elsewhere s s') :
    Same s s' ∧ s'.rewardPerEpoch = s.rewardPerEpoch := by
  obtain ⟨_, _, _, _, _, _, -, rfl⟩ := h
  exact ⟨⟨rfl, rfl, rfl, rfl, rfl, rfl, rfl, rfl⟩, rfl⟩

/-- What every change keeps, and the setting of the reward to `R`, every run keeps. -/
theorem Steps.induct {P : GaugeVoteRewards → Prop}
    (change : ∀ s₁ s₂, P s₁ → Change s₁ s₂ → P s₂)
    (reward : ∀ s₁ s₂, P s₁ → Same s₁ s₂ → s₂.rewardPerEpoch = R → P s₂)
    (start : P s) (h : Steps R s s') : P s' := by
  induction h with
  | refl => exact start
  | elsewhere _ he ih =>
    obtain ⟨hs, hr⟩ := he.same
    exact change _ _ ih (.same hs hr)
  | @call s₁ sender c _ hc ih =>
    unfold step
    split
    · next s₂ hx =>
      cases c with
      | setRewardPerEpoch n =>
        obtain ⟨-, -, hx⟩ := bind_eq_ok.1 hx
        cases hx
        exact reward _ _ ih ⟨rfl, rfl, rfl, rfl, rfl, rfl, rfl, rfl⟩ (hc n rfl)
      | _ =>
        have hch := exec_changes (by simp) hx
        clear hx hc
        induction hch with
        | refl => exact ih
        | tail _ hs ih => exact change _ _ ih hs
    · exact ih

theorem Sound.change (h : Sound R s) (hc : Change s s') : Sound R s' := by
  cases hc with
  | same hs hr => exact h.same hs (hr ▸ h.reward)
  | voted e hv => exact h.vote hv
  | paid p hp => exact h.paid hp

theorem Deployed.sound (h : Deployed s) (R : ℕ) : Sound R s where
  distro_ne := h.distro_ne
  oft_ne := h.oft_ne
  reward := .inl h.rewardPerEpoch
  weights e := by
    rw [sum_congr rfl fun g _ => h.getWeightByEpoch e g, sum_const_zero]
    exact Nat.zero_le _
  marked := by simp [h.payments]
  voted := by simp [h.payments]
  amount := by simp [h.payments]
  nodup := by simp [h.payments]

theorem Steps.sound (h₀ : Deployed s) (h : Steps R s s') : Sound R s' :=
  h.induct (fun _ _ => Sound.change) (fun _ _ ih hs hr => ih.same hs (.inr hr)) (h₀.sound R)

theorem Frozen.trans_same {s₁ s₂ : GaugeVoteRewards} (h : Frozen s s₁)
    (ht : s₂.getTotalWeight = s₁.getTotalWeight)
    (hw : s₂.getWeightByEpoch = s₁.getWeightByEpoch) : Frozen s s₂ := by
  intro e he
  rw [ht, hw]
  exact h e he

theorem Frozen.change {s₁ s₂ : GaugeVoteRewards} (h : Frozen s s₁) (hc : Change s₁ s₂) :
    Frozen s s₂ := by
  cases hc with
  | same hs _ => exact h.trans_same hs.getTotalWeight hs.getWeightByEpoch
  | voted epoch hv =>
    intro e he
    obtain ⟨ht, hw⟩ := h e he
    have hne : e ≠ epoch := by
      rintro rfl
      exact he (ht.symm.trans hv.unvoted)
    obtain ⟨hw', ht'⟩ := hv.others e hne
    exact ⟨ht'.trans ht, hw'.trans hw⟩
  | paid p hp => exact h.trans_same hp.getTotalWeight hp.getWeightByEpoch

theorem Steps.frozen (h : Steps R s s') : Frozen s s' :=
  h.induct (P := Frozen s) (fun _ _ => Frozen.change)
    (fun _ _ ih hs _ => ih.trans_same hs.getTotalWeight hs.getWeightByEpoch)
    fun _ _ => ⟨rfl, rfl⟩

/-- The payments for an epoch are portions of one reward for different gauges. -/
theorem Sound.handedOut_le (h : Sound R s) (e : ℕ) : s.handedOut e ≤ R := by
  set ps := s.payments.filter fun p => p.epoch = e with hps
  have hmem (p : Payment) (hp : p ∈ ps) : p ∈ s.payments ∧ p.epoch = e := by
    obtain ⟨hp, he⟩ := List.mem_filter.1 hp
    exact ⟨hp, of_decide_eq_true he⟩
  by_cases hT : s.getTotalWeight e = 0
  · -- nothing is paid before the vote
    have hnil : ps = [] := List.eq_nil_iff_forall_not_mem.2 fun p hp => by
      obtain ⟨hp, he⟩ := hmem p hp
      exact h.voted p hp (he ▸ hT)
    unfold handedOut
    rw [← hps, hnil]
    exact Nat.zero_le _
  · have hgauges : (ps.map Payment.gauge).Nodup := by
      have hkeys : (ps.map fun p => (p.epoch, p.gauge)).Nodup :=
        h.nodup.sublist (List.filter_sublist.map _)
      refine List.Nodup.of_map (fun g => (e, g)) ?_
      rw [List.map_map]
      refine (List.map_congr_left fun p hp => ?_) ▸ hkeys
      rw [(hmem p hp).2]
      rfl
    have hsum : s.handedOut e = ∑ g ∈ (ps.map Payment.gauge).toFinset,
        ProRata.portion R (s.getTotalWeight e) (s.getWeightByEpoch e g) := by
      rw [List.sum_toFinset _ hgauges, List.map_map]
      unfold handedOut spent
      rw [← hps]
      refine congrArg List.sum (List.map_congr_left fun p hp => ?_)
      obtain ⟨hp, he⟩ := hmem p hp
      rw [h.amount p hp, he]
      rfl
    rw [hsum]
    exact ProRata.sum_portion_finset_le _ _ (Nat.pos_of_ne_zero hT)
      ((sum_le_sum_of_subset (subset_univ _)).trans (h.weights e))

/-- With a reward per epoch of `R` : at most `R` is handed out for an epoch ; every gauge is
paid for it at most once, the portion of its weight ; once there is a total weight, the
weights of the epoch are fixed ; a call pays every gauge of its list, and the amounts reach the
pools of the gauges, or the message and the transfer to their chain ; or it reverts and changes
nothing. -/
theorem rewards_bounded {R : ℕ} {s₀ s : GaugeVoteRewards} (h₀ : Deployed s₀) (h : Steps R s₀ s) :
    (∀ e, s.handedOut e ≤ R) ∧
      (s.payments.map fun p => (p.epoch, p.gauge)).Nodup ∧
      (∀ p ∈ s.payments, s.getTotalWeight p.epoch ≠ 0 ∧ p.amount =
        R * s.getWeightByEpoch p.epoch p.gauge / s.getTotalWeight p.epoch) ∧
      (∀ s', Steps R s s' → Frozen s s') ∧
      (∀ sender e gauges s', s.processGaugeRewards sender e gauges = .ok s' →
        ∃ new, Pays s s' e gauges new ∧ Funds s s' new) ∧
      (∀ sender gauges e c r, s.processSidechainGaugeRewards sender gauges e c = .ok r →
        ∃ new, Pays s r.1 e gauges new ∧ Carries s r.1 r.2 e c new) ∧
      ∀ sender c e, s.exec sender c = .error e → s.step sender c = s := by
  have hs := h.sound h₀
  refine ⟨hs.handedOut_le, hs.nodup, fun p hp => ⟨hs.voted p hp, hs.amount p hp⟩,
    fun s' h' => h'.frozen, fun _ _ _ _ hx => processGaugeRewards_pays hs.distro_ne hx,
    fun _ _ _ _ _ hx => processSidechainGaugeRewards_pays hs.oft_ne hx, fun _ _ _ hx => ?_⟩
  unfold step
  rw [hx]

/-! ## Computed runs -/

/-- A contract just deployed at the address 300 on the chain 1 by the account 401, with all
AURA, for two pools of the gauges 10 and 11. -/
def initial : GaugeVoteRewards where
  now := 1
  self := 300
  owner := 401
  aura := 200
  auraOFT := 301
  tokens _ := Erc20.single 300 (10 ^ 30) Erc20.single_supply_lt fun _ _ => 2 ^ 256 - 1
  stashRewardDistro := ⟨302, fun _ _ _ => 0⟩
  poolGauges := [10, 11]
  getRecipient := id
  trustedRemoteLookup _ := true
  lzChainId := 1
  rewardPerEpoch := 0
  distributor := 0
  getDstChainId _ := 0
  getChildGaugeVoteRewards _ := 0
  getPoolId _ := ⟨0, false⟩
  getWeightByEpoch _ _ := 0
  isProcessed _ _ := false
  isNoDepositGauge _ := false
  getTotalWeight _ := 0
  payments := []

theorem initial_deployed : Deployed initial :=
  ⟨show (302 : Address) ≠ 300 by decide, show (301 : Address) ≠ 300 by decide, rfl,
    fun _ _ => rfl, fun _ _ => rfl, fun _ => rfl, rfl⟩

/-- The state after some calls with their senders. -/
def after (s : GaugeVoteRewards) (log : List (Address × Call)) : GaugeVoteRewards :=
  log.foldl (fun s e => s.step e.1 e.2) s

theorem Steps.after {s₀ : GaugeVoteRewards} {log : List (Address × Call)} (h : Steps R s₀ s)
    (hlog : ∀ e ∈ log, ∀ n, e.2 = .setRewardPerEpoch n → n = R) : Steps R s₀ (s.after log) := by
  induction log generalizing s with
  | nil => exact h
  | cons e log ih =>
    obtain ⟨he, hlog⟩ := List.forall_mem_cons.1 hlog
    exact ih (h.call he) hlog

/-- A vote that names the gauge 10 twice and a gauge without deposits, with one gauge paid
here and one on the chain 2, in a message to the contract at 500. -/
theorem rewards_bounded_run : ∃ (s : GaugeVoteRewards) (r : GaugeVoteRewards × Sent)
    (new : List Payment), s.getTotalWeight 0 = 9000 ∧ s.handedOut 0 = 222 ∧
      (∀ e, s.handedOut e ≤ 1000) ∧
      s.processSidechainGaugeRewards 402 [12] 0 2 = .ok r ∧ Pays s r.1 0 [12] new ∧
      Carries s r.1 r.2 0 2 new ∧ r.2.recipient = 500 := by
  let log : List (Address × Call) :=
    [(401, .setDistributor 402), (401, .setRewardPerEpoch 1000), (9, .setPoolIds 0 2),
      (401, .setDstChainId [12] 2), (401, .setChildGaugeVoteRewards 2 500),
      (401, .setIsNoDepositGauge 13 true),
      (401, .voteGaugeWeight [10, 12, 10, 13] [3000, 4000, 2000, 1000]),
      (402, .processGaugeRewards 0 [10]), (402, .processGaugeRewards 0 [11, 10])]
  have hrun : Steps 1000 initial (initial.after log) := Steps.refl.after (by simp [log])
  have htotal : (initial.after log).getTotalWeight 0 = 9000 := by decide +kernel
  have hspent : (initial.after log).handedOut 0 = 222 := by decide +kernel
  have hchild : (initial.after log).getChildGaugeVoteRewards 2 = 500 := by decide +kernel
  obtain ⟨r, hr⟩ := Tx.exists_ok
    (show ((initial.after log).processSidechainGaugeRewards 402 [12] 0 2).returns = true by
      decide +kernel)
  obtain ⟨hle, -, -, -, -, hsent, -⟩ := rewards_bounded initial_deployed hrun
  obtain ⟨new, hpays, hcarries⟩ := hsent 402 [12] 0 2 r hr
  exact ⟨_, r, new, htotal, hspent, hle, hr, hpays, hcarries, hcarries.recipient.trans hchild⟩

end GaugeVoteRewards

end Aura.Gauges
