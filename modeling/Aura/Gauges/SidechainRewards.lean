import Aura.Evm.Run
import Aura.Gauges.ChildGaugeVoteRewards
import Aura.Gauges.Payments
import Aura.Writes

/-!
# Gauges : vote rewards of the sidechains

`GaugeVoteRewards` marks the root gauges that it has processed, and `ChildGaugeVoteRewards`
stores an amount under the recipient of the root gauge, in place of what is there. So the
amounts of an epoch are conserved exactly as long as no two gauges that were processed for it
and the same chain have the same recipient (`conserved_iff`).

The recipient of a root gauge does not change.
-/

open Evm Function Finset Writes

namespace Aura.Gauges.SidechainRewards

open Bridge (ChainId)

deriving instance DecidableEq for Sent

/-- The contract on the main chain, those on the sidechains, and the messages. -/
structure Network where
  root : GaugeVoteRewards
  child : ChainId → ChildGaugeVoteRewards
  /-- The messages that were not delivered yet. -/
  inFlight : List Sent
  /-- All messages, which no function reads. -/
  sent : List Sent
  /-- The messages that were delivered, which no function reads. -/
  delivered : List Sent

inductive Call where
  | root (c : GaugeVoteRewards.Call)
  | child (chain : ChainId) (c : ChildGaugeVoteRewards.Call)
  /-- Deliver the undelivered message at a place. -/
  | deliver (i : ℕ)
  deriving DecidableEq

/-- The delivery of a message. -/
def Network.receive (n : Network) (m : Sent) : ChainId → ChildGaugeVoteRewards :=
  update n.child m.dstChainId ((n.child m.dstChainId)._blockingLzReceive m.epoch m.payloads)

/-- Run a call of `sender`. -/
def exec (n : Network) (sender : Address) : Call → Tx Network
  | .root (.processSidechainGaugeRewards gs e c) => do
    let r ← n.root.processSidechainGaugeRewards sender gs e c
    .ok { n with root := r.1, inFlight := n.inFlight ++ [r.2], sent := n.sent ++ [r.2] }
  | .root c => do
    let root ← n.root.exec sender c
    .ok { n with root }
  | .child chain c => do
    let s ← (n.child chain).exec sender c
    .ok { n with child := update n.child chain s }
  | .deliver i => do
    let m ← index n.inFlight i
    .ok { n with
      child := n.receive m
      inFlight := n.inFlight.eraseIdx i
      delivered := n.delivered ++ [m] }

/-- Other contracts act. -/
structure Elsewhere (n n' : Network) : Prop where
  root : n.root.Elsewhere n'.root
  getRecipient : n'.root.getRecipient = n.root.getRecipient
  child : ∀ c, (n.child c).Elsewhere (n'.child c)
  inFlight : n'.inFlight = n.inFlight
  sent : n'.sent = n.sent
  delivered : n'.delivered = n.delivered

/-- The contracts were just deployed. -/
structure Deployed (n : Network) : Prop where
  root : n.root.Deployed
  child : ∀ c, (n.child c).Deployed
  inFlight : n.inFlight = []
  sent : n.sent = []
  delivered : n.delivered = []

def system : System Network Address Call where
  now n := n.root.now
  IsCaller _ _ := True
  exec := exec
  Elsewhere := Elsewhere
  Deployed := Deployed

instance (n : Network) (a : Address) : Decidable (system.IsCaller n a) :=
  inferInstanceAs (Decidable True)

abbrev Log := List (Event Address Call)

/-! ## Conservation -/

/-- The gauges that a call processes for a chain and an epoch. -/
def gaugesOf (c : ChainId) (e : ℕ) : Call → List Address
  | .root (.processSidechainGaugeRewards gs e' c') => if c' = c ∧ e' = e then gs else []
  | _ => []

/-- The gauges processed for a chain and an epoch. -/
def processed (c : ChainId) (e : ℕ) (log : Log) : List Address :=
  log.flatMap fun x => gaugesOf c e x.call

/-- The messages to a chain for an epoch. -/
def messages (c : ChainId) (e : ℕ) (ms : List Sent) : List Sent :=
  ms.filter fun m => m.dstChainId = c ∧ m.epoch = e

/-- The child gauges and amounts in the messages to a chain for an epoch. -/
def entries (c : ChainId) (e : ℕ) (ms : List Sent) : List (Address × ℕ) :=
  (messages c e ms).flatMap Sent.payloads

/-- An amount that was delivered is stored, and it was handed out once, or it will be by
`processGaugeRewards` if the pool of its gauge is set and the distributor takes it, which then
has it for the pool. -/
structure Stored (s : ChildGaugeVoteRewards) (e : ℕ) (gauge : Address) (amount : ℕ) : Prop where
  stored : s.getAmountToSendByEpoch e gauge = amount
  paid : s.paid e gauge = [amount] ∨ s.paid e gauge = [] ∧ ((s.getPoolId gauge).isSet = true →
    ∀ f, s.stashRewardDistro.fundPool s.now s.tokens s.self (s.getPoolId gauge).value s.aura
      amount 2 = .ok f →
        ∃ s', s.processGaugeRewards s.distributor e [gauge] = .ok s' ∧
          s'.paid e gauge = [amount] ∧ s.Funded s' ⟨e, gauge, amount⟩)

/-- No amount is stored or was handed out. -/
structure Free (s : ChildGaugeVoteRewards) (e : ℕ) (gauge : Address) : Prop where
  getAmountToSendByEpoch : s.getAmountToSendByEpoch e gauge = 0
  getAmountSentByEpoch : s.getAmountSentByEpoch e gauge = 0
  paid : s.paid e gauge = []

/-- The amounts sent to every chain for every epoch are stored there or not delivered yet,
each that was delivered is paid once, and each other one has a free place of its own. -/
structure Conserved (n : Network) : Prop where
  total : ∀ c e, ((messages c e n.sent).map Sent.amount).sum =
    ∑ g, (n.child c).getAmountToSendByEpoch e g + ((entries c e n.inFlight).map Prod.snd).sum
  stored : ∀ c e, ∀ x ∈ entries c e n.delivered, Stored (n.child c) e x.1 x.2
  free : ∀ c e, ∀ x ∈ entries c e n.inFlight, Free (n.child c) e x.1
  own : ∀ c e, ((entries c e n.inFlight).map Prod.fst).Nodup

/-! ## What the root contract sends -/

open GaugeVoteRewards (Batch processSidechainGauge calculateAmountToSend_eq_ok)

/-- The recipients are the same, and gauges that were processed stay so. -/
structure Onward (s s' : GaugeVoteRewards) : Prop where
  getRecipient : s'.getRecipient = s.getRecipient
  isProcessed : ∀ e g, s.isProcessed e g = true → s'.isProcessed e g = true

/-- Gauges were processed, none of them before. -/
structure Processes (s s' : GaugeVoteRewards) (epoch : ℕ) (gauges : List Address) : Prop where
  onward : Onward s s'
  fresh : ∀ g ∈ gauges, s.isProcessed epoch g = false
  nodup : gauges.Nodup
  isProcessed : ∀ g ∈ gauges, s'.isProcessed epoch g = true

variable {s s' : GaugeVoteRewards} {sender : Address} {epoch : ℕ} {c : ChainId}

theorem Onward.refl (s : GaugeVoteRewards) : Onward s s :=
  ⟨rfl, fun _ _ h => h⟩

theorem Onward.trans {s₁ s₂ s₃ : GaugeVoteRewards} (h₁ : Onward s₁ s₂) (h₂ : Onward s₂ s₃) :
    Onward s₁ s₃ :=
  ⟨h₂.getRecipient.trans h₁.getRecipient, fun e g h => h₂.isProcessed e g (h₁.isProcessed e g h)⟩

theorem calculateAmountToSend_processes {gauge : Address} {r : GaugeVoteRewards × ℕ}
    (h : s._calculateAmountToSend epoch gauge = .ok r) :
    r.2 ≠ 0 ∧ Processes s r.1 epoch [gauge] := by
  obtain ⟨hfresh, -, hne, -, hr⟩ := calculateAmountToSend_eq_ok h
  have hmarked : r.1.isProcessed =
      update s.isProcessed epoch (update (s.isProcessed epoch) gauge true) := by rw [hr]
  refine ⟨hne, ⟨by rw [hr], fun e g hg => ?_⟩, ?_, List.nodup_singleton _, ?_⟩
  · rw [hmarked]
    by_cases he : e = epoch
    · subst he
      rw [update_self]
      by_cases hgg : g = gauge
      · rw [hgg, update_self]
      · rwa [update_of_ne hgg]
    · rwa [update_of_ne he]
  · simpa using hfresh
  · simp [hmarked]

theorem Processes.cons {s₁ s₂ s₃ : GaugeVoteRewards} {gauge : Address} {gauges : List Address}
    (h₁ : Processes s₁ s₂ epoch [gauge]) (h₂ : Processes s₂ s₃ epoch gauges) :
    Processes s₁ s₃ epoch (gauge :: gauges) := by
  have hgauge : s₂.isProcessed epoch gauge = true := h₁.isProcessed gauge (List.mem_singleton.2 rfl)
  refine ⟨h₁.onward.trans h₂.onward, ?_, List.nodup_cons.2 ⟨fun hg => ?_, h₂.nodup⟩, ?_⟩
  · rintro g (_ | ⟨_, hg⟩)
    · exact h₁.fresh gauge (List.mem_singleton.2 rfl)
    · have hfresh := h₂.fresh g hg
      by_contra hne
      rw [h₁.onward.isProcessed epoch g (by simpa using hne)] at hfresh
      exact Bool.noConfusion hfresh
  · rw [h₂.fresh gauge hg] at hgauge
    exact Bool.noConfusion hgauge
  · rintro g (_ | ⟨_, hg⟩)
    · exact h₂.onward.isProcessed epoch gauge hgauge
    · exact h₂.isProcessed g hg

/-- One round of the loop. -/
theorem processSidechainGauge_eq_ok {gauge : Address} {b b' : Batch}
    (h : processSidechainGauge epoch c b gauge = .ok b') :
    Processes b.state b'.state epoch [gauge] ∧ ∃ n, n ≠ 0 ∧
      b'.payloads = b.payloads ++ [(b.state.getRecipient gauge, n)] ∧
      b'.totalAmountToSend = b.totalAmountToSend + n := by
  unfold processSidechainGauge at h
  obtain ⟨-, h⟩ := require_bind_eq_ok.1 h
  obtain ⟨⟨s₁, n⟩, h₁, h⟩ := bind_eq_ok.1 h
  obtain ⟨t, ht, h⟩ := bind_eq_ok.1 h
  obtain ⟨-, rfl⟩ := uadd_eq_ok.1 ht
  cases h
  obtain ⟨hne, hs⟩ := calculateAmountToSend_processes h₁
  have hrecipient : s₁.getRecipient = b.state.getRecipient := hs.onward.getRecipient
  refine ⟨⟨⟨hs.onward.1, hs.onward.2⟩, hs.fresh, hs.nodup, hs.isProcessed⟩, n, hne, ?_, rfl⟩
  rw [← hrecipient]

/-- The loop : a payload for every gauge. -/
theorem processSidechainGauges_eq_ok :
    ∀ {gauges : List Address} {b b' : Batch},
      gauges.foldlM (processSidechainGauge epoch c) b = .ok b' →
      Processes b.state b'.state epoch gauges ∧ ∃ new : List (Address × ℕ),
        b'.payloads = b.payloads ++ new ∧
        new.map Prod.fst = gauges.map b.state.getRecipient ∧ (∀ x ∈ new, x.2 ≠ 0) ∧
        b'.totalAmountToSend = b.totalAmountToSend + (new.map Prod.snd).sum := by
  intro gauges
  induction gauges with
  | nil =>
    intro b b' h
    cases h
    exact ⟨⟨.refl _, by simp, List.nodup_nil, by simp⟩, [], by simp⟩
  | cons gauge gauges ih =>
    intro b b' h
    obtain ⟨b₁, h₁, h⟩ := bind_eq_ok.1 h
    obtain ⟨hfirst, n, hn, hpay₁, htot₁⟩ := processSidechainGauge_eq_ok h₁
    obtain ⟨hrest, new, hpay, hmap, hne, htot⟩ := ih h
    refine ⟨hfirst.cons hrest, (b.state.getRecipient gauge, n) :: new, ?_, ?_, ?_, ?_⟩
    · rw [hpay, hpay₁, List.append_assoc, List.singleton_append]
    · rw [List.map_cons, List.map_cons, hmap, hfirst.onward.getRecipient]
    · exact List.forall_mem_cons.2 ⟨hn, hne⟩
    · rw [htot, htot₁, List.map_cons, List.sum_cons, Nat.add_assoc]

/-- What is sent : the recipients of the gauges, and amounts that are not zero and add up. -/
structure Sends (s : GaugeVoteRewards) (m : Sent) (c : ChainId) (epoch : ℕ)
    (gauges : List Address) : Prop where
  dstChainId : m.dstChainId = c
  epoch : m.epoch = epoch
  recipients : m.payloads.map Prod.fst = gauges.map s.getRecipient
  ne : ∀ x ∈ m.payloads, x.2 ≠ 0
  amount : m.amount = (m.payloads.map Prod.snd).sum

theorem processSidechainGaugeRewards_eq_ok {gauges : List Address} {r : GaugeVoteRewards × Sent}
    (h : s.processSidechainGaugeRewards sender gauges epoch c = .ok r) :
    Processes s r.1 epoch gauges ∧ Sends s r.2 c epoch gauges := by
  obtain ⟨-, -, h⟩ := bind_eq_ok.1 h
  obtain ⟨-, h⟩ := require_bind_eq_ok.1 h
  obtain ⟨b, hb, h⟩ := bind_eq_ok.1 h
  obtain ⟨-, -, h⟩ := bind_eq_ok.1 h
  obtain ⟨t, -, h⟩ := bind_eq_ok.1 h
  cases h
  obtain ⟨hs, new, hpay, hmap, hne, htot⟩ := processSidechainGauges_eq_ok hb
  rw [List.nil_append] at hpay
  subst hpay
  rw [Nat.zero_add] at htot
  exact ⟨⟨⟨hs.onward.1, hs.onward.2⟩, hs.fresh, hs.nodup, hs.isProcessed⟩, rfl, rfl, hmap, hne,
    htot⟩

theorem voteGauge_onward {r r' : GaugeVoteRewards.Tally} {v : Address × ℕ}
    (h : GaugeVoteRewards.voteGauge epoch r v = .ok r') : Onward r.state r'.state := by
  obtain ⟨w, -, h⟩ := bind_eq_ok.1 h
  split_ifs at h
  · cases h
    exact .refl _
  · obtain ⟨-, h⟩ := require_bind_eq_ok.1 h
    obtain ⟨d, -, h⟩ := bind_eq_ok.1 h
    cases h
    exact ⟨rfl, fun _ _ h => h⟩

theorem processGauge_onward {gauge : Address}
    (h : GaugeVoteRewards.processGauge epoch s gauge = .ok s') : Onward s s' := by
  obtain ⟨-, h⟩ := require_bind_eq_ok.1 h
  obtain ⟨-, h⟩ := require_bind_eq_ok.1 h
  obtain ⟨r, hr, h⟩ := bind_eq_ok.1 h
  obtain ⟨-, h⟩ := require_bind_eq_ok.1 h
  obtain ⟨f, -, h⟩ := bind_eq_ok.1 h
  cases h
  have hs := (calculateAmountToSend_processes hr).2.onward
  exact ⟨hs.1, hs.2⟩

theorem voteGaugeWeight_onward {gs : List Address} {ws : List ℕ}
    (h : s.exec sender (.voteGaugeWeight gs ws) = .ok s') : Onward s s' := by
  obtain ⟨-, -, h⟩ := bind_eq_ok.1 h
  obtain ⟨-, h⟩ := require_bind_eq_ok.1 h
  obtain ⟨-, h⟩ := require_bind_eq_ok.1 h
  obtain ⟨-, h⟩ := require_bind_eq_ok.1 h
  obtain ⟨r, hr, h⟩ := bind_eq_ok.1 h
  obtain ⟨-, h⟩ := require_bind_eq_ok.1 h
  cases h
  have hloop : Onward s r.state := by
    refine foldlM_keeps (P := fun r => Onward s r.state) (fun v _ r₁ r₂ hs hx => ?_) (.refl s) hr
    exact hs.trans (voteGauge_onward hx)
  exact ⟨hloop.1, hloop.2⟩

theorem exec_onward {c : GaugeVoteRewards.Call} (h : s.exec sender c = .ok s') : Onward s s' := by
  cases c with
  | setPoolIds i j =>
    refine foldlM_keeps (P := Onward s) (fun k _ s₁ s₂ hs hx => ?_) (.refl s) h
    obtain ⟨gauge, -, hx⟩ := bind_eq_ok.1 hx
    cases hx
    exact ⟨hs.1, hs.2⟩
  | voteGaugeWeight gs ws => exact voteGaugeWeight_onward h
  | processGaugeRewards e gs =>
    obtain ⟨-, -, h⟩ := bind_eq_ok.1 h
    obtain ⟨-, h⟩ := require_bind_eq_ok.1 h
    refine foldlM_keeps (P := Onward s) (fun g _ s₁ s₂ hs hx => ?_) (.refl s) h
    exact hs.trans (processGauge_onward hx)
  | processSidechainGaugeRewards gs e c =>
    obtain ⟨r, hr, h⟩ := bind_eq_ok.1 h
    cases h
    exact (processSidechainGaugeRewards_eq_ok hr).1.onward
  | setChildGaugeVoteRewards _ _ | setDstChainId _ _ =>
    obtain ⟨-, -, h⟩ := bind_eq_ok.1 h
    obtain ⟨-, h⟩ := require_bind_eq_ok.1 h
    cases h
    exact ⟨rfl, fun _ _ h => h⟩
  | transferERC20 _ _ _ =>
    obtain ⟨-, -, h⟩ := bind_eq_ok.1 h
    obtain ⟨t, -, h⟩ := bind_eq_ok.1 h
    cases h
    exact ⟨rfl, fun _ _ h => h⟩
  | _ =>
    -- a setting of the owner
    obtain ⟨-, -, h⟩ := bind_eq_ok.1 h
    cases h
    exact ⟨rfl, fun _ _ h => h⟩

/-! ## Messages -/

variable {e : ℕ} {ms ms' : List Sent} {m : Sent} {log : Log} {n n' : Network}

theorem processed_append (l : Log) (x : Event Address Call) :
    processed c e (l ++ [x]) = processed c e l ++ gaugesOf c e x.call := by
  simp [processed]

theorem messages_append : messages c e (ms ++ ms') = messages c e ms ++ messages c e ms' :=
  List.filter_append ..

theorem entries_append : entries c e (ms ++ ms') = entries c e ms ++ entries c e ms' := by
  unfold entries
  rw [messages_append, List.flatMap_append]

theorem entries_singleton (m : Sent) :
    entries c e [m] = if m.dstChainId = c ∧ m.epoch = e then m.payloads else [] := by
  unfold entries messages
  by_cases hm : m.dstChainId = c ∧ m.epoch = e <;> simp [hm]

theorem entries_perm (h : ms.Perm ms') : (entries c e ms).Perm (entries c e ms') :=
  (h.filter _).flatMap_right _

theorem mem_entries {x : Address × ℕ} (h : x ∈ entries c e ms) : ∃ m ∈ ms, x ∈ m.payloads := by
  obtain ⟨m, hm, hx⟩ := List.mem_flatMap.1 h
  exact ⟨m, List.mem_of_mem_filter hm, hx⟩

/-- The amounts of the messages are those of their entries. -/
theorem sum_messages (h : ∀ m ∈ ms, m.amount = (m.payloads.map Prod.snd).sum) :
    ((messages c e ms).map Sent.amount).sum = ((entries c e ms).map Prod.snd).sum := by
  have hmap : (messages c e ms).map Sent.amount =
      (messages c e ms).map fun m => (m.payloads.map Prod.snd).sum :=
    List.map_congr_left fun m hm => h m (List.mem_of_mem_filter hm)
  rw [hmap]
  unfold entries
  induction messages c e ms with
  | nil => rfl
  | cons m ms ih => simp [ih]

/-! ## Every child -/

/-- An amount was handed out at most once, and only if there is an amount. -/
structure Tidy (s : ChildGaugeVoteRewards) : Prop where
  unpaid : ∀ e g, s.getAmountSentByEpoch e g = 0 → s.paid e g = []
  paid : ∀ e g, s.getAmountSentByEpoch e g ≠ 0 →
    s.paid e g = [s.getAmountSentByEpoch e g] ∧ s.getAmountToSendByEpoch e g ≠ 0

theorem tidy_deployed {s : ChildGaugeVoteRewards} (h : s.Deployed) : Tidy s where
  unpaid e g _ := by simp [ChildGaugeVoteRewards.paid, h.payments]
  paid e g hne := absurd (by rw [h.getAmountSentByEpoch]) hne

theorem Tidy.same {s s' : ChildGaugeVoteRewards} (h : Tidy s) (hs : s.Same s') : Tidy s' where
  unpaid e g := by
    unfold ChildGaugeVoteRewards.paid
    rw [hs.getAmountSentByEpoch, hs.payments]
    exact h.unpaid e g
  paid e g := by
    unfold ChildGaugeVoteRewards.paid
    rw [hs.getAmountSentByEpoch, hs.payments, hs.getAmountToSendByEpoch]
    exact h.paid e g

theorem paid_forwarded {s s' : ChildGaugeVoteRewards} {p : Payment} (h : s.Forwarded s' p)
    (e : ℕ) (g : Address) :
    s'.paid e g = if p.epoch = e ∧ p.gauge = g then p.amount :: s.paid e g else s.paid e g := by
  unfold ChildGaugeVoteRewards.paid
  rw [h.payments]
  by_cases hp : p.epoch = e ∧ p.gauge = g <;> simp [hp]

theorem sent_forwarded {s s' : ChildGaugeVoteRewards} {p : Payment} (h : s.Forwarded s' p)
    (e : ℕ) (g : Address) :
    s'.getAmountSentByEpoch e g =
      if p.epoch = e ∧ p.gauge = g then p.amount else s.getAmountSentByEpoch e g := by
  rw [h.getAmountSentByEpoch]
  by_cases he : p.epoch = e
  · subst he
    by_cases hg : p.gauge = g
    · subst hg
      simp
    · rw [update_self, update_of_ne (Ne.symm hg)]
      simp [hg]
  · rw [update_of_ne (Ne.symm he)]
    simp [he]

theorem Tidy.forwarded {s s' : ChildGaugeVoteRewards} {p : Payment} (h : Tidy s)
    (hp : s.Forwarded s' p) : Tidy s' where
  unpaid e g hsent := by
    rw [sent_forwarded hp] at hsent
    rw [paid_forwarded hp]
    split_ifs at hsent ⊢ with hc
    · exact absurd hsent hp.amount_ne
    · exact h.unpaid e g hsent
  paid e g hsent := by
    rw [sent_forwarded hp] at hsent ⊢
    rw [paid_forwarded hp, hp.getAmountToSendByEpoch]
    split_ifs at hsent ⊢ with hc
    · obtain ⟨rfl, rfl⟩ := hc
      rw [h.unpaid _ _ hp.fresh, ← hp.amount]
      exact ⟨rfl, hsent⟩
    · exact h.paid e g hsent

theorem receive_toSend (s : ChildGaugeVoteRewards) (e e' : ℕ) (payloads : List (Address × ℕ)) :
    (s._blockingLzReceive e payloads).getAmountToSendByEpoch e' =
      if e = e' then written (s.getAmountToSendByEpoch e') payloads
      else s.getAmountToSendByEpoch e' := by
  unfold ChildGaugeVoteRewards._blockingLzReceive
  induction payloads generalizing s with
  | nil => simp
  | cons x payloads ih =>
    rw [List.foldl_cons, ih]
    by_cases he : e = e'
    · subst he
      simp [ChildGaugeVoteRewards.receiveGauge, written]
    · rw [if_neg he, if_neg he]
      exact update_of_ne (Ne.symm he) _ _

theorem receive_frame (s : ChildGaugeVoteRewards) (e : ℕ) (payloads : List (Address × ℕ)) :
    (s._blockingLzReceive e payloads).getAmountSentByEpoch = s.getAmountSentByEpoch ∧
      (s._blockingLzReceive e payloads).payments = s.payments := by
  unfold ChildGaugeVoteRewards._blockingLzReceive
  induction payloads generalizing s with
  | nil => exact ⟨rfl, rfl⟩
  | cons x payloads ih => exact ih _

theorem Tidy.receive {s : ChildGaugeVoteRewards} (h : Tidy s) (e : ℕ)
    {payloads : List (Address × ℕ)} (hne : ∀ x ∈ payloads, x.2 ≠ 0) :
    Tidy (s._blockingLzReceive e payloads) := by
  obtain ⟨hsent, hpayments⟩ := receive_frame s e payloads
  constructor
  · intro e' g
    unfold ChildGaugeVoteRewards.paid
    rw [hsent, hpayments]
    exact h.unpaid e' g
  · intro e' g hg
    unfold ChildGaugeVoteRewards.paid
    rw [hsent] at hg ⊢
    obtain ⟨hpaid, hsend⟩ := h.paid e' g hg
    rw [hpayments, receive_toSend]
    refine ⟨hpaid, ?_⟩
    split_ifs
    · by_cases hk : g ∈ payloads.map Prod.fst
      · exact written_ne_zero hne hk
      · rwa [written_of_notMem _ hk]
    · exact hsend

/-- A message reaches the child on its chain. -/
theorem Network.receive_cases (n : Network) (m : Sent) {P : ChainId → ChildGaugeVoteRewards → Prop}
    (hself : P m.dstChainId ((n.child m.dstChainId)._blockingLzReceive m.epoch m.payloads))
    (hother : ∀ c, m.dstChainId ≠ c → P c (n.child c)) (c : ChainId) : P c (n.receive m c) := by
  by_cases hc : m.dstChainId = c
  · subst hc
    rwa [Network.receive, update_self]
  · rw [Network.receive, update_of_ne (Ne.symm hc)]
    exact hother c hc

theorem Network.receive_toSend (n : Network) (m : Sent) (c : ChainId) (e : ℕ) :
    (n.receive m c).getAmountToSendByEpoch e =
      written ((n.child c).getAmountToSendByEpoch e) (entries c e [m]) := by
  rw [entries_singleton]
  refine n.receive_cases m (P := fun c s => s.getAmountToSendByEpoch e = written
    ((n.child c).getAmountToSendByEpoch e)
    (if m.dstChainId = c ∧ m.epoch = e then m.payloads else [])) ?_ (fun c hc => ?_) c
  · rw [SidechainRewards.receive_toSend]
    by_cases he : m.epoch = e <;> simp [he]
  · rw [if_neg fun h => hc h.1, written_nil]

theorem Network.receive_sent (n : Network) (m : Sent) (c : ChainId) :
    (n.receive m c).getAmountSentByEpoch = (n.child c).getAmountSentByEpoch :=
  n.receive_cases m (P := fun c s => s.getAmountSentByEpoch = (n.child c).getAmountSentByEpoch)
    (receive_frame _ _ _).1 (fun _ _ => rfl) c

/-! ## Every run -/

/-- The recipients of what was sent to a chain for an epoch are pairwise different. -/
def Distinct (n : Network) : Prop :=
  ∀ c e, ((entries c e n.sent).map Prod.fst).Nodup

structure Accounted (log : Log) (n : Network) : Prop where
  perm : n.sent.Perm (n.inFlight ++ n.delivered)
  ne : ∀ m ∈ n.sent, ∀ x ∈ m.payloads, x.2 ≠ 0
  amount : ∀ m ∈ n.sent, m.amount = (m.payloads.map Prod.snd).sum
  recipients : ∀ c e,
    (entries c e n.sent).map Prod.fst = (processed c e log).map n.root.getRecipient
  isProcessed : ∀ c e, ∀ g ∈ processed c e log, n.root.isProcessed e g = true
  nodup : ∀ c e, (processed c e log).Nodup
  tidy : ∀ c, Tidy (n.child c)
  stored : ∀ c e,
    (n.child c).getAmountToSendByEpoch e = written (fun _ => 0) (entries c e n.delivered)
  whole : Distinct n → ∀ c e g, (n.child c).getAmountSentByEpoch e g = 0 ∨
    (n.child c).getAmountSentByEpoch e g = (n.child c).getAmountToSendByEpoch e g

theorem Accounted.deployed (h : Deployed n) : Accounted [] n where
  perm := by rw [h.sent, h.inFlight, h.delivered]; exact .nil
  ne := by simp [h.sent]
  amount := by simp [h.sent]
  recipients _ _ := by rw [h.sent]; rfl
  isProcessed _ _ _ hg := absurd hg List.not_mem_nil
  nodup _ _ := List.nodup_nil
  tidy c := tidy_deployed (h.child c)
  stored c e := by rw [h.delivered, (h.child c).getAmountToSendByEpoch]; rfl
  whole _ c e g := .inl (by rw [(h.child c).getAmountSentByEpoch])

/-- The root contract acts without a message. -/
theorem Accounted.onward (h : Accounted log n) (hroot : Onward n.root n'.root)
    (hchild : ∀ c, (n.child c).Same (n'.child c)) (hinFlight : n'.inFlight = n.inFlight)
    (hsent : n'.sent = n.sent) (hdelivered : n'.delivered = n.delivered)
    {log' : Log} (hlog : ∀ c e, processed c e log' = processed c e log) : Accounted log' n' where
  perm := by rw [hsent, hinFlight, hdelivered]; exact h.perm
  ne := by rw [hsent]; exact h.ne
  amount := by rw [hsent]; exact h.amount
  recipients c e := by rw [hsent, hlog, hroot.getRecipient]; exact h.recipients c e
  isProcessed c e g hg := by
    rw [hlog] at hg
    exact hroot.isProcessed e g (h.isProcessed c e g hg)
  nodup c e := by rw [hlog]; exact h.nodup c e
  tidy c := (h.tidy c).same (hchild c)
  stored c e := by rw [hdelivered, (hchild c).getAmountToSendByEpoch]; exact h.stored c e
  whole hd c e g := by
    rw [(hchild c).getAmountSentByEpoch, (hchild c).getAmountToSendByEpoch]
    unfold Distinct at hd
    rw [hsent] at hd
    exact h.whole hd c e g

theorem Accounted.elsewhere (h : Accounted log n) (he : Elsewhere n n') : Accounted log n' := by
  have hroot : Onward n.root n'.root := by
    refine ⟨he.getRecipient, fun e g hg => ?_⟩
    rw [he.root.same.1.isProcessed]
    exact hg
  exact h.onward hroot (fun c => (he.child c).same) he.inFlight he.sent he.delivered
    fun _ _ => rfl

/-- A message is sent. -/
theorem Accounted.send (h : Accounted log n) {gauges : List Address}
    {r : GaugeVoteRewards × Sent} (hr : Processes n.root r.1 epoch gauges)
    (hm : Sends n.root r.2 c epoch gauges) (t : ℕ) (sender : Address) :
    Accounted (log ++ [⟨t, sender, .root (.processSidechainGaugeRewards gauges epoch c)⟩])
      { n with root := r.1, inFlight := n.inFlight ++ [r.2], sent := n.sent ++ [r.2] } where
  perm := by
    refine (h.perm.append_right [r.2]).trans ?_
    rw [List.append_assoc, List.append_assoc]
    exact List.perm_append_comm.append_left _
  ne m hmem := by
    rcases List.mem_append.1 hmem with hmem | hmem
    · exact h.ne m hmem
    · rw [List.mem_singleton.1 hmem]
      exact hm.ne
  amount m hmem := by
    rcases List.mem_append.1 hmem with hmem | hmem
    · exact h.amount m hmem
    · rw [List.mem_singleton.1 hmem]
      exact hm.amount
  recipients c' e' := by
    rw [entries_append, entries_singleton, processed_append, List.map_append, List.map_append,
      hr.onward.getRecipient, h.recipients, hm.dstChainId, hm.epoch]
    unfold gaugesOf
    dsimp only
    split_ifs with hc
    · rw [hm.recipients]
    · rfl
  isProcessed c' e' g hg := by
    rw [processed_append] at hg
    rcases List.mem_append.1 hg with hg | hg
    · exact hr.onward.isProcessed e' g (h.isProcessed c' e' g hg)
    · unfold gaugesOf at hg
      dsimp only at hg
      split_ifs at hg with hc
      · rw [← hc.2]
        exact hr.isProcessed g hg
      · exact absurd hg List.not_mem_nil
  nodup c' e' := by
    rw [processed_append]
    unfold gaugesOf
    dsimp only
    split_ifs with hc
    · refine List.nodup_append.2 ⟨h.nodup c' e', hr.nodup, fun g hg g' hg' hgg => ?_⟩
      subst hgg
      have hmarked := h.isProcessed c' e' g hg
      rw [← hc.2, hr.fresh g hg'] at hmarked
      exact Bool.noConfusion hmarked
    · rw [List.append_nil]
      exact h.nodup c' e'
  tidy := h.tidy
  stored := h.stored
  whole hd c' e' g := by
    refine h.whole (fun c e => ?_) c' e' g
    have hce := hd c e
    rw [entries_append, List.map_append] at hce
    exact (List.nodup_append.1 hce).1

theorem Accounted.entries_perm (h : Accounted log n) (c : ChainId) (e : ℕ) :
    (entries c e n.sent).Perm (entries c e n.inFlight ++ entries c e n.delivered) := by
  rw [← entries_append]
  exact SidechainRewards.entries_perm h.perm

/-- An amount on the way is for a gauge that has none. -/
theorem Accounted.free (h : Accounted log n) (hd : Distinct n) {x : Address × ℕ}
    (hx : x ∈ entries c e n.inFlight) : Free (n.child c) e x.1 := by
  have hnodup : ((entries c e n.inFlight ++ entries c e n.delivered).map Prod.fst).Nodup :=
    ((h.entries_perm c e).map Prod.fst).nodup_iff.1 (hd c e)
  rw [List.map_append] at hnodup
  have hnew : x.1 ∉ (entries c e n.delivered).map Prod.fst := fun hx' =>
    (List.nodup_append.1 hnodup).2.2 _ (List.mem_map_of_mem hx) _ hx' rfl
  have hsend : (n.child c).getAmountToSendByEpoch e x.1 = 0 := by
    rw [h.stored, written_of_notMem _ hnew]
  have hsent : (n.child c).getAmountSentByEpoch e x.1 = 0 := by
    by_contra hne
    exact ((h.tidy c).paid e x.1 hne).2 hsend
  exact ⟨hsend, hsent, (h.tidy c).unpaid e x.1 hsent⟩

/-- A message is delivered. -/
theorem Accounted.deliver (h : Accounted log n) {i : ℕ} (hi : n.inFlight[i]? = some m)
    {log' : Log} (hlog : ∀ c e, processed c e log' = processed c e log) :
    Accounted log' { n with
      child := n.receive m
      inFlight := n.inFlight.eraseIdx i
      delivered := n.delivered ++ [m] } := by
  obtain ⟨hlt, rfl⟩ := List.getElem?_eq_some_iff.1 hi
  set m := n.inFlight[i] with hm
  have hpick : (m :: n.inFlight.eraseIdx i).Perm n.inFlight := List.getElem_cons_eraseIdx_perm hlt
  have hmsent : m ∈ n.sent := h.perm.symm.subset (List.mem_append_left _ (List.getElem_mem hlt))
  have hwritten : ∀ c e, (n.receive m c).getAmountToSendByEpoch e =
      written (fun _ => 0) (entries c e (n.delivered ++ [m])) := fun c e => by
    rw [entries_append, written_append, ← h.stored, n.receive_toSend]
  refine ⟨?_, h.ne, h.amount, fun c e => by rw [hlog]; exact h.recipients c e, ?_,
    fun c e => by rw [hlog]; exact h.nodup c e, ?_, hwritten, fun hd c e g => ?_⟩
  · refine h.perm.trans ((hpick.symm.append_right _).trans ?_)
    rw [← List.append_assoc]
    exact (List.perm_append_singleton m _).symm
  · intro c e g hg
    rw [hlog] at hg
    exact h.isProcessed c e g hg
  · exact n.receive_cases m (P := fun _ => Tidy) ((h.tidy _).receive m.epoch (h.ne m hmsent))
      fun c _ => h.tidy c
  · show (n.receive m c).getAmountSentByEpoch e g = 0 ∨
      (n.receive m c).getAmountSentByEpoch e g = (n.receive m c).getAmountToSendByEpoch e g
    rw [n.receive_sent, n.receive_toSend]
    by_cases hg : g ∈ (entries c e [m]).map Prod.fst
    · -- the amount arrives in a free place
      obtain ⟨x, hx, rfl⟩ := List.mem_map.1 hg
      have hx' : x ∈ entries c e n.inFlight := by
        refine (SidechainRewards.entries_perm hpick).subset ?_
        show x ∈ entries c e ([m] ++ n.inFlight.eraseIdx i)
        rw [entries_append]
        exact List.mem_append_left _ hx
      exact .inl (h.free hd hx').getAmountSentByEpoch
    · rw [written_of_notMem _ hg]
      exact h.whole hd c e g

/-- What a call of a child contract keeps. -/
structure Kept (s s' : ChildGaugeVoteRewards) : Prop where
  tidy : Tidy s'
  getAmountToSendByEpoch : s'.getAmountToSendByEpoch = s.getAmountToSendByEpoch
  whole : ∀ e g,
    s.getAmountSentByEpoch e g = 0 ∨ s.getAmountSentByEpoch e g = s.getAmountToSendByEpoch e g →
    s'.getAmountSentByEpoch e g = 0 ∨ s'.getAmountSentByEpoch e g = s'.getAmountToSendByEpoch e g

theorem exec_kept {s s' : ChildGaugeVoteRewards} {call : ChildGaugeVoteRewards.Call}
    (h : Tidy s) (hx : s.exec sender call = .ok s') : Kept s s' := by
  refine ChildGaugeVoteRewards.exec_keeps (P := Kept s) ?_ ?_ ⟨h, rfl, fun _ _ => id⟩ hx
  · intro s₁ s₂ hk hs
    refine ⟨hk.tidy.same hs, hs.getAmountToSendByEpoch.trans hk.getAmountToSendByEpoch, ?_⟩
    rw [hs.getAmountSentByEpoch, hs.getAmountToSendByEpoch]
    exact hk.whole
  · intro s₁ s₂ p hk hp
    refine ⟨hk.tidy.forwarded hp, hp.getAmountToSendByEpoch.trans hk.getAmountToSendByEpoch,
      fun e g hw => ?_⟩
    rw [sent_forwarded hp, hp.getAmountToSendByEpoch]
    split_ifs with hc
    · obtain ⟨rfl, rfl⟩ := hc
      exact .inr hp.amount
    · exact hk.whole e g hw

/-- A child contract is called. -/
theorem Accounted.child (h : Accounted log n) {chain : ChainId} {s : ChildGaugeVoteRewards}
    (hs : Kept (n.child chain) s) {log' : Log}
    (hlog : ∀ c e, processed c e log' = processed c e log) :
    Accounted log' { n with child := update n.child chain s } := by
  have hkept : ∀ c, Kept (n.child c) (update n.child chain s c) := by
    intro c
    by_cases hc : c = chain
    · subst hc
      rwa [update_self]
    · rw [update_of_ne hc]
      exact ⟨h.tidy c, rfl, fun _ _ => id⟩
  refine ⟨h.perm, h.ne, h.amount, fun c e => by rw [hlog]; exact h.recipients c e, ?_,
    fun c e => by rw [hlog]; exact h.nodup c e, fun c => (hkept c).tidy, fun c e => ?_,
    fun hd c e g => (hkept c).whole e g (h.whole hd c e g)⟩
  · intro c e g hg
    rw [hlog] at hg
    exact h.isProcessed c e g hg
  · show (update n.child chain s c).getAmountToSendByEpoch e = _
    rw [(hkept c).getAmountToSendByEpoch]
    exact h.stored c e

theorem Accounted.of_reachable (h : system.Reachable log n) : Accounted log n := by
  refine h.induct (fun _ => Accounted.deployed) (fun _ _ _ => Accounted.elsewhere) ?_
  intro log n n' sender call h _ hx
  cases call with
  | root call =>
    cases call with
    | processSidechainGaugeRewards gs e c =>
      obtain ⟨r, hr, hx⟩ := bind_eq_ok.1 hx
      cases hx
      obtain ⟨hprocesses, hsends⟩ := processSidechainGaugeRewards_eq_ok hr
      exact h.send hprocesses hsends _ _
    | _ =>
      obtain ⟨root, hr, hx⟩ := bind_eq_ok.1 hx
      cases hx
      refine h.onward ?_ ?_ ?_ ?_ ?_ ?_
      · exact exec_onward hr
      · exact fun _ => .refl _
      · rfl
      · rfl
      · rfl
      · intro c e
        rw [processed_append]
        exact List.append_nil _
  | child chain call =>
    obtain ⟨s, hs, hx⟩ := bind_eq_ok.1 hx
    cases hx
    refine h.child (exec_kept (h.tidy chain) hs) fun c e => ?_
    rw [processed_append]
    exact List.append_nil _
  | deliver i =>
    obtain ⟨m, hm, hx⟩ := bind_eq_ok.1 hx
    cases hx
    refine h.deliver (index_eq_ok.1 hm) fun c e => ?_
    rw [processed_append]
    exact List.append_nil _

/-! ## The main result -/

/-- The condition in terms of what was processed. -/
theorem Accounted.distinct_iff (h : Accounted log n) :
    Distinct n ↔ ∀ c e, Set.InjOn n.root.getRecipient {g | g ∈ processed c e log} := by
  unfold Distinct
  simp only [h.recipients]
  exact forall₂_congr fun c e => List.nodup_map_iff_inj_on (h.nodup c e)

theorem Accounted.entries_ne (h : Accounted log n) {ms : List Sent} (hms : ∀ m ∈ ms, m ∈ n.sent)
    (c : ChainId) (e : ℕ) : ∀ x ∈ entries c e ms, x.2 ≠ 0 := by
  intro x hx
  obtain ⟨m, hm, hx⟩ := mem_entries hx
  exact h.ne m (hms m hm) x hx

theorem Accounted.delivered_ne (h : Accounted log n) (c : ChainId) (e : ℕ) :
    ∀ x ∈ entries c e n.delivered, x.2 ≠ 0 :=
  h.entries_ne (fun _ hm => h.perm.symm.subset (List.mem_append_right _ hm)) c e

/-- The amounts sent are conserved exactly if no delivered one was overwritten. -/
theorem Accounted.total_iff (h : Accounted log n) (c : ChainId) (e : ℕ) :
    ((messages c e n.sent).map Sent.amount).sum =
        ∑ g, (n.child c).getAmountToSendByEpoch e g + ((entries c e n.inFlight).map Prod.snd).sum ↔
      ((entries c e n.delivered).map Prod.fst).Nodup := by
  have hsum := ((h.entries_perm c e).map Prod.snd).sum_eq
  rw [List.map_append, List.sum_append] at hsum
  rw [← sum_written_eq_iff (h.delivered_ne c e), sum_messages h.amount, hsum, h.stored c e]
  omega

/-- An amount that was delivered is stored and paid once. -/
theorem Accounted.stored_of (h : Accounted log n) (hd : Distinct n) {x : Address × ℕ}
    (hx : x ∈ entries c e n.delivered) : Stored (n.child c) e x.1 x.2 := by
  have hnodup := ((h.entries_perm c e).map Prod.fst).nodup_iff.1 (hd c e)
  rw [List.map_append] at hnodup
  have hsend : (n.child c).getAmountToSendByEpoch e x.1 = x.2 := by
    rw [h.stored, written_of_mem (List.nodup_append.1 hnodup).2.1 hx]
  refine ⟨hsend, ?_⟩
  by_cases hsent : (n.child c).getAmountSentByEpoch e x.1 = 0
  · have hunpaid := (h.tidy c).unpaid e x.1 hsent
    refine .inr ⟨hunpaid, fun hpool f hf => ?_⟩
    have hne : (n.child c).getAmountToSendByEpoch e x.1 ≠ 0 := by
      rw [hsend]
      exact h.delivered_ne c e x hx
    rw [← hsend] at hf ⊢
    obtain ⟨s', hs'⟩ := ChildGaugeVoteRewards.processGauge_of hne hsent hpool hf
    obtain ⟨hforwarded, hfunded⟩ := ChildGaugeVoteRewards.processGauge_eq_ok hs'
    have hpaid := paid_forwarded hforwarded e x.1
    rw [if_pos ⟨rfl, rfl⟩, hunpaid] at hpaid
    exact ⟨s', require_bind_eq_ok.2 ⟨rfl, bind_eq_ok.2 ⟨s', hs', rfl⟩⟩, hpaid, hfunded⟩
  · rcases h.whole hd c e x.1 with hzero | heq
    · exact absurd hzero hsent
    · left
      rw [((h.tidy c).paid e x.1 hsent).1, heq, hsend]

/-- In every run the amounts are conserved exactly as long as no two gauges that were processed
for the same epoch and chain have the same recipient. -/
theorem conserved_iff (h : system.Reachable log n) :
    Conserved n ↔ ∀ c e, Set.InjOn n.root.getRecipient {g | g ∈ processed c e log} := by
  have hacc := Accounted.of_reachable h
  rw [← hacc.distinct_iff]
  constructor
  · intro hcons c e
    have hdelivered := (hacc.total_iff c e).1 (hcons.total c e)
    rw [((hacc.entries_perm c e).map Prod.fst).nodup_iff, List.map_append, List.nodup_append]
    refine ⟨hcons.own c e, hdelivered, fun g hg g' hg' hgg => ?_⟩
    subst hgg
    obtain ⟨x, hx, rfl⟩ := List.mem_map.1 hg
    have hzero := (hcons.free c e x hx).getAmountToSendByEpoch
    rw [hacc.stored] at hzero
    exact written_ne_zero (hacc.delivered_ne c e) hg' hzero
  · intro hd
    have hnodup : ∀ c e, ((entries c e n.inFlight).map Prod.fst).Nodup ∧
        ((entries c e n.delivered).map Prod.fst).Nodup := by
      intro c e
      have hce := ((hacc.entries_perm c e).map Prod.fst).nodup_iff.1 (hd c e)
      rw [List.map_append] at hce
      exact ⟨(List.nodup_append.1 hce).1, (List.nodup_append.1 hce).2.1⟩
    exact ⟨fun c e => (hacc.total_iff c e).2 (hnodup c e).2,
      fun c e x hx => hacc.stored_of hd hx, fun c e x hx => hacc.free hd hx,
      fun c e => (hnodup c e).1⟩

/-! ## Runs -/

/-- The recipients do not change. -/
theorem getRecipient_of_steps (h : system.Steps n log n') :
    n'.root.getRecipient = n.root.getRecipient := by
  refine h.invariant (P := fun n' => n'.root.getRecipient = n.root.getRecipient) ?_ ?_ rfl
  · exact fun w w' hw he => he.getRecipient.trans hw
  · intro w w' sender call hw _ hx
    refine Eq.trans ?_ hw
    cases call with
    | root call =>
      cases call with
      | processSidechainGaugeRewards gs e c =>
        obtain ⟨r, hr, hx⟩ := bind_eq_ok.1 hx
        cases hx
        exact (processSidechainGaugeRewards_eq_ok hr).1.onward.getRecipient
      | _ =>
        obtain ⟨root, hr, hx⟩ := bind_eq_ok.1 hx
        cases hx
        exact (exec_onward hr).getRecipient
    | child chain call =>
      obtain ⟨s, -, hx⟩ := bind_eq_ok.1 hx
      cases hx
      rfl
    | deliver i =>
      obtain ⟨m, -, hx⟩ := bind_eq_ok.1 hx
      cases hx
      rfl

/-- A contract just deployed at the address 500 by the account 401, with 10^30 AURA, for two
pools of the gauges 12 and 14. -/
def initialChild : ChildGaugeVoteRewards where
  now := 1
  self := 500
  owner := 401
  aura := 200
  tokens _ := Erc20.single 500 (10 ^ 30) Erc20.single_supply_lt fun _ _ => 2 ^ 256 - 1
  stashRewardDistro := ⟨302, fun _ _ _ => 0⟩
  poolGauges := [12, 14]
  distributor := 0
  getAmountToSendByEpoch _ _ := 0
  getAmountSentByEpoch _ _ := 0
  getPoolId _ := ⟨0, false⟩
  payments := []

/-- The contracts just deployed, with such a contract on every chain. -/
def Network.initial (getRecipient : Address → Address) : Network where
  root := { GaugeVoteRewards.initial with getRecipient }
  child _ := initialChild
  inFlight := []
  sent := []
  delivered := []

theorem Network.initial_deployed (f : Address → Address) : Deployed (Network.initial f) where
  root := ⟨GaugeVoteRewards.initial_deployed.distro_ne, GaugeVoteRewards.initial_deployed.oft_ne,
    rfl, fun _ _ => rfl, fun _ _ => rfl, fun _ => rfl, rfl⟩
  child _ := ⟨rfl, rfl, rfl⟩
  inFlight := rfl
  sent := rfl
  delivered := rfl

/-- The network at a later time. -/
def Network.at (n : Network) (now : ℕ) : Network :=
  { n with root := { n.root with now } }

theorem Network.elsewhere_at (n : Network) (now : ℕ) (h : n.root.now ≤ now) :
    Elsewhere n (n.at now) where
  root := ⟨now, n.root.tokens, n.root.stashRewardDistro.getFunds, n.root.poolGauges,
    n.root.getRecipient, n.root.trustedRemoteLookup, h, rfl⟩
  getRecipient := rfl
  child c := ⟨(n.child c).now, (n.child c).tokens, (n.child c).stashRewardDistro.getFunds,
    (n.child c).poolGauges, le_rfl, rfl⟩
  inFlight := rfl
  sent := rfl
  delivered := rfl

/-- A vote for the gauges 12 and 14 of the chain 2. -/
def voted : Log :=
  [⟨1, 401, .root (.setDistributor 402)⟩, ⟨1, 401, .root (.setRewardPerEpoch 1000)⟩,
    ⟨1, 401, .root (.setDstChainId [12, 14] 2)⟩,
    ⟨1, 401, .root (.setChildGaugeVoteRewards 2 500)⟩,
    ⟨1, 401, .root (.voteGaugeWeight [12, 14] [6000, 4000])⟩]

/-- Two messages of one gauge each. The second is processed before the first is delivered. -/
theorem conserved_iff_run : ∃ log n, system.Reachable log n ∧ Conserved n ∧
    (n.child 2).paid 0 14 = [400] ∧ n.inFlight.length = 1 := by
  let log : Log := voted ++
    [⟨2, 402, .root (.processSidechainGaugeRewards [12] 0 2)⟩,
      ⟨3, 402, .root (.processSidechainGaugeRewards [14] 0 2)⟩, ⟨4, 1, .deliver 1⟩,
      ⟨5, 401, .child 2 (.setDistributor 403)⟩, ⟨6, 1, .child 2 (.setPoolIds 0 2)⟩,
      ⟨7, 403, .child 2 (.processGaugeRewards 0 [14])⟩]
  obtain ⟨n, hn⟩ := Tx.exists_ok
    (show (system.play Network.at (Network.initial id) log).returns = true by decide +kernel)
  have hsteps : system.Steps (Network.initial id) log n := .play Network.elsewhere_at hn
  have hreach : system.Reachable log n := ⟨_, Network.initial_deployed id, hsteps⟩
  have hvalues : (system.play Network.at (Network.initial id) log).map
      (fun n => ((n.child 2).paid 0 14, n.inFlight.length)) = .ok ([400], 1) := by decide +kernel
  rw [hn] at hvalues
  obtain ⟨hpaid, hlength⟩ := Prod.mk.inj (Except.ok.inj hvalues)
  have hcons : Conserved n := by
    refine (conserved_iff hreach).2 fun c e => ?_
    rw [getRecipient_of_steps hsteps]
    exact Set.injOn_id _
  exact ⟨log, n, hreach, hcons, hpaid, hlength⟩

/-- Two root gauges with one recipient : the second message replaces the amount of the first,
and 600 of the 1000 AURA sent are for no gauge. -/
theorem not_conserved : ¬∀ {log : Log} {n : Network}, system.Reachable log n → Conserved n := by
  intro h
  let log : Log := voted ++
    [⟨2, 402, .root (.processSidechainGaugeRewards [12] 0 2)⟩,
      ⟨3, 402, .root (.processSidechainGaugeRewards [14] 0 2)⟩, ⟨4, 1, .deliver 0⟩,
      ⟨5, 1, .deliver 0⟩]
  let start := Network.initial fun _ => 12
  obtain ⟨n, hn⟩ := Tx.exists_ok
    (show (system.play Network.at start log).returns = true by decide +kernel)
  have hreach : system.Reachable log n :=
    ⟨start, Network.initial_deployed _, .play Network.elsewhere_at hn⟩
  have hvalues : (system.play Network.at start log).map
      (fun n => (entries 2 0 n.delivered, (n.child 2).getAmountToSendByEpoch 0 12)) =
        .ok ([(12, 600), (12, 400)], 400) := by decide +kernel
  rw [hn] at hvalues
  obtain ⟨hentries, hsend⟩ := Prod.mk.inj (Except.ok.inj hvalues)
  have hstored := ((h hreach).stored 2 0 (12, 600) (by simp [hentries])).stored
  dsimp only at hstored
  omega

end Aura.Gauges.SidechainRewards
