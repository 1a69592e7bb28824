import Aura.Bridge.AuraBalSpecs
import Aura.Bridge.AuraProxy
import Aura.Bridge.Log
import Aura.SetQueue

/-!
# Bridge : the queue of PausableProxyOFT

The queue is a set of hashes of epoch, chain, recipient, amount and timestamp, without a
nonce. Two transfers of the same amount from the same chain to the same recipient that are
queued at the same timestamp have one hash : only one of them can be processed, and the
amount of the other is lost. Nothing else is (`queue_conserves_iff`).
-/

open Evm Function SetQueue

namespace Aura.Bridge

/-- The transfers that were queued, the latest first. -/
def queuedOf (log : List Event) : List Transfer :=
  log.filterMap fun
    | .queued t => some t
    | _ => none

/-- The transfers that were processed, the latest first. -/
def processedOf (log : List Event) : List Transfer :=
  log.filterMap fun
    | .processed t _ _ _ => some t
    | _ => none

variable {σ : Type} [Heir σ]

namespace ProxyOft

/-- What `processQueued` can still release, from the entries that are set. -/
def releasable (p : ProxyOft σ) (log : List Event) : ℕ :=
  pending Transfer.amount p.queue (queuedOf log)

/-- The queue has what was queued and not processed, and what was processed was queued at
an earlier time. -/
structure Queued (log : List Event) (p : ProxyOft σ) : Prop where
  kept : Kept p.queue (queuedOf log) (processedOf log)
  earlier : ∀ t ∈ processedOf log, t.timestamp < p.now

variable {p p' : ProxyOft σ} {log es : List Event}

theorem Fresh.queued (h : p.Fresh) : Queued [] p :=
  ⟨.empty h.queue, nofun⟩

/-- Time that passes queues nothing. -/
theorem Queued.of_eq (h : Queued log p) (hq : p'.queue = p.queue)
    (hs : queuedOf es = []) (hp : processedOf es = []) (hnow : p.now ≤ p'.now) :
    Queued (es ++ log) p' := by
  have hqueued : queuedOf (es ++ log) = queuedOf log := by
    unfold queuedOf at hs ⊢
    rw [List.filterMap_append, hs, List.nil_append]
  have hprocessed : processedOf (es ++ log) = processedOf log := by
    unfold processedOf at hp ⊢
    rw [List.filterMap_append, hp, List.nil_append]
  refine ⟨?_, fun t ht => ?_⟩
  · rw [hq, hqueued, hprocessed]
    exact h.kept
  · rw [hprocessed] at ht
    exact (h.earlier t ht).trans_le hnow

theorem Queued.step (h : Queued log p) (hl : Logged p p' es) : Queued (es ++ log) p' := by
  cases hl with
  | quiet hq _ _ _ hnow => exact h.of_eq hq rfl rfl hnow
  | limited n _ hq _ _ hnow => exact h.of_eq hq rfl rfl hnow
  | received n _ _ hq _ _ _ hnow => exact h.of_eq hq rfl rfl hnow
  | queued t _ htime hq _ _ _ hnow =>
    -- what was processed has an earlier timestamp
    have hnot : t ∉ processedOf log := fun ht => (h.earlier t ht).ne htime
    refine ⟨?_, fun u hu => (h.earlier u hu).trans_le hnow⟩
    rw [hq]
    exact h.kept.put hnot
  | processed t _ hset hdue hq _ _ _ hnow =>
    refine ⟨?_, fun u hu => ?_⟩
    · rw [hq]
      exact h.kept.take hset
    · rcases List.mem_cons.1 hu with rfl | hu
      · omega
      · exact (h.earlier u hu).trans_le hnow

theorem Run.queued [Forward σ] {p₀ : ProxyOft σ} (h₀ : p₀.Fresh) (h : Run p₀ log p) :
    Queued log p :=
  h.induct (P := Queued) h₀.queued fun _ _ _ _ => Queued.step

/-- An entry that is set is credited when it is due and processed, while the bridge is not
paused and the heir can credit it. -/
theorem exists_processQueued {t : Transfer} {r : σ × ℕ} (ht : p.queue t = true)
    (hpaused : p.guard.paused = false) (hfits : t.timestamp + p.queueDelay < 2 ^ 256)
    (hdue : t.timestamp + p.queueDelay < p.now)
    (hr : Heir._creditTo p.heir t.recipient t.amount = .ok r) :
    ∃ p', p.processQueued t = .ok p' ∧ p'.heir = r.1 ∧ p'.queue = update p.queue t false := by
  have hadd : AuraMath.add t.timestamp p.queueDelay = .ok (t.timestamp + p.queueDelay) :=
    uadd_of hfits
  unfold processQueued PauseGuardian.whenNotPaused
  rw [require_of hpaused, ok_bind, require_of ht, ok_bind, hadd, ok_bind, require_of hdue, ok_bind]
  dsimp only
  rw [hr, ok_bind]
  exact ⟨_, rfl, rfl, rfl⟩

end ProxyOft

instance : Forward AuraProxy where
  debitFrom h := by
    obtain ⟨_, -, h⟩ := bind_eq_ok.1 h
    cases h
    exact le_rfl
  creditTo h := by
    obtain ⟨_, -, h⟩ := bind_eq_ok.1 h
    cases h
    exact le_rfl
  lock hl h := by
    obtain rfl := Option.some.inj hl
    obtain ⟨w, hw, h⟩ := bind_eq_ok.1 h
    cases h
    obtain ⟨_, _, _, -, -, hn, -⟩ := Locker.lockCall_eq_ok hw
    exact hn.ge
  exec {_ _ c} := c.elim
  elsewhere h := AuraProxy.Elsewhere.now h

namespace AuraBalProxy

variable {s s' : AuraBalProxy}

@[simp] theorem setLedger_now (s : AuraBalProxy) (token : Address) (t : Erc20 Address) :
    (s.setLedger token t).now = s.now := by
  unfold setLedger
  split_ifs <;> rfl

theorem processHarvestableTokens_now {r : AuraBalProxy × List HarvestToken}
    (h : s._processHarvestableTokens = .ok r) : r.1.now = s.now := by
  obtain ⟨n, -, h⟩ := bind_eq_ok.1 h
  refine foldlM_keeps (P := fun r => r.1.now = s.now) (fun e _ r r' hr hx => ?_) rfl h
  obtain ⟨s₁, h₁, hx⟩ := bind_eq_ok.1 hx
  obtain ⟨_, -, hx⟩ := bind_eq_ok.1 hx
  cases hx
  obtain ⟨t, -, h₁⟩ := bind_eq_ok.1 h₁
  cases h₁
  rw [← hr]
  exact setLedger_now _ _ _

theorem harvest_now {sender : Address} {us : List ℕ} {sum : ℕ}
    (h : s.harvest sender us sum = .ok s') : s'.now = s.now := by
  obtain ⟨-, h⟩ := require_bind_eq_ok.1 h
  obtain ⟨-, h⟩ := require_bind_eq_ok.1 h
  obtain ⟨p, hp, h⟩ := bind_eq_ok.1 h
  obtain ⟨r, hr, h⟩ := bind_eq_ok.1 h
  obtain ⟨-, h⟩ := require_bind_eq_ok.1 h
  cases h
  refine foldlM_keeps (P := fun r => r.1.now = s.now) (fun e _ r r' hr hx => ?_)
    (processHarvestableTokens_now hp) hr
  obtain ⟨_, -, hx⟩ := bind_eq_ok.1 hx
  obtain ⟨_, -, hx⟩ := bind_eq_ok.1 hx
  cases hx
  exact hr

theorem processClaimable_now {p : ProxyOft AuraBalProxy} {token : Address} {c : ChainId}
    {r : AuraBalProxy × List Message} (h : processClaimable p token c = .ok r) :
    r.1.now = p.heir.now := by
  rcases (processClaimable_eq_ok h).sent with ⟨-, -, hs⟩ | ⟨-, -, -, tokens, hs, -⟩
  · rw [hs]
  · rw [hs]

theorem execOwn_now {p : ProxyOft AuraBalProxy} {sender : Address} {c : Own}
    {r : AuraBalProxy × List Message} (h : execOwn p sender c = .ok r) :
    r.1.now = p.heir.now := by
  cases c with
  | harvest us sum =>
    obtain ⟨s', hs, h⟩ := bind_eq_ok.1 h
    cases h
    exact harvest_now hs
  | processClaimable token c => exact processClaimable_now h
  | setRewardReceiver c a => rw [(byOwner_eq_ok h).1]
  | updateAuthorizedHarvesters a b => rw [(byOwner_eq_ok h).1]
  | setOFT token oft => rw [(byOwner_eq_ok h).1]
  | setHarvestSrcChainIds cs => rw [(byOwner_eq_ok h).1]
  | setWithdrawalPenalty n =>
    obtain ⟨-, -, h⟩ := bind_eq_ok.1 h
    obtain ⟨v, -, h⟩ := bind_eq_ok.1 h
    cases h
    rfl

end AuraBalProxy

instance : Forward AuraBalProxy where
  debitFrom h := by
    obtain ⟨q, -, h⟩ := bind_eq_ok.1 h
    obtain ⟨⟨s₁, k⟩, h₁, h⟩ := bind_eq_ok.1 h
    obtain ⟨i, -, h⟩ := bind_eq_ok.1 h
    cases h
    obtain ⟨v, -, h₁⟩ := bind_eq_ok.1 h₁
    cases h₁
    exact (AuraBalProxy.setLedger_now _ _ _).ge
  creditTo h := by
    obtain ⟨s₁, h₁, h⟩ := bind_eq_ok.1 h
    obtain ⟨q, -, h⟩ := bind_eq_ok.1 h
    obtain ⟨i, -, h⟩ := bind_eq_ok.1 h
    cases h
    have hs := (AuraBalProxy.withdraw_eq_ok h₁).2
    refine le_of_eq ?_
    show _ = (AuraBalProxy.setLedger _ _ _).now
    rw [AuraBalProxy.setLedger_now, hs]
    rfl
  lock hl := by cases hl
  exec h := (AuraBalProxy.execOwn_now h).ge
  elsewhere h := by
    cases h with
    | vault _ _ _ _ _ hs => exact (congrArg AuraBalProxy.now hs).ge
    | moved _ _ _ _ hnow _ _ _ hs => exact hnow.trans (congrArg AuraBalProxy.now hs).ge

open ProxyOft

/-- What was queued is what was processed and what can still be released exactly if no two
transfers of the same amount, not zero, from the same chain to the same recipient were
queued at the same timestamp. An entry that is set was queued and not processed, and can be
processed when it is due, which makes the heir credit its recipient with its amount and clears
the entry ; no transfer is processed twice ; and a call does to the heir what it records. -/
theorem queue_conserves_iff [Forward σ] {p₀ p : ProxyOft σ} {log : List Event} (h₀ : p₀.Fresh)
    (h : Run p₀ log p) :
    (waiting (queuedOf log) = waiting (processedOf log) + p.releasable log ↔
      ∀ t ∈ queuedOf log, t.amount ≠ 0 → (queuedOf log).count t = 1) ∧
    (∀ t, p.queue t = true ↔ t ∈ queuedOf log ∧ t ∉ processedOf log) ∧
    (∀ t r, p.queue t = true → p.guard.paused = false → t.timestamp + p.queueDelay < 2 ^ 256 →
      t.timestamp + p.queueDelay < p.now → Heir._creditTo p.heir t.recipient t.amount = .ok r →
        ∃ p', p.processQueued t = .ok p' ∧ p'.heir = r.1 ∧ p'.queue = update p.queue t false) ∧
    (processedOf log).Nodup ∧
    ∀ sender c p', p.exec sender c = .ok p' → Told p p' sender c (p.record c) := by
  have hq := h.queued h₀
  exact ⟨hq.kept.sum_eq_iff Transfer.amount, hq.kept.set_iff,
    fun t r ht => exists_processQueued ht, hq.kept.nodup, fun _ _ _ => exec_told⟩

/-- A bridge of AURA just deployed, with the inflow limit 10. -/
def auraProxy : ProxyOft AuraProxy :=
  (Network.initial 1 ⟨300, .initial 1⟩ 10).proxy

theorem auraProxy_fresh : auraProxy.Fresh :=
  ⟨fun _ => rfl, fun _ => rfl⟩

/-- The proxy at a later time. -/
def auraProxyAt (p : ProxyOft AuraProxy) (now : ℕ) : ProxyOft AuraProxy :=
  { p with heir := { p.heir with world := { p.heir.world with now } } }

/-- Two transfers to different accounts are queued while the bridge is paused. Two weeks later
one of them is processed, and its recipient has the tokens. -/
theorem queue_conserves_run : ∃ (log : List Event) (p p' : ProxyOft AuraProxy),
    waiting (queuedOf log) = 300 ∧
      (waiting (queuedOf log) = waiting (processedOf log) + p.releasable log ↔
        ∀ t ∈ queuedOf log, t.amount ≠ 0 → (queuedOf log).count t = 1) ∧
      p.processQueued ⟨0, 2, 3, 200, 1⟩ = .ok p' ∧
      (p'.heir.world.tokens p'.heir.innerToken).balanceOf 3 = 200 := by
  let es : List (Address × ProxyCall Empty) :=
    [(1, .sendFrom 1 2 (encodePacked 2) 300), (400, .pause),
      (9, .lzReceive 2 (.send (encodePacked 2) 100)),
      (9, .lzReceive 2 (.send (encodePacked 3) 200)), (400, .unpause)]
  let p := auraProxyAt (auraProxy.after es).2 (2 * epochDuration)
  have hrun : Run auraProxy (auraProxy.after es).1 (auraProxy.after es).2 :=
    .after (by decide +kernel)
  have hlater : Run auraProxy (auraProxy.after es).1 p :=
    .elsewhere hrun ⟨rfl, rfl, by decide +kernel, le_rfl⟩
  have hsum : waiting (queuedOf (auraProxy.after es).1) = 300 := by decide +kernel
  obtain ⟨r, hr⟩ := Tx.exists_ok
    (show (Heir._creditTo p.heir 3 200).returns = true by decide +kernel)
  have hgot : (Heir._creditTo p.heir 3 200).map
      (fun r => (r.1.world.tokens r.1.innerToken).balanceOf 3) = .ok 200 := by decide +kernel
  obtain ⟨hiff, -, hprocess, -⟩ := queue_conserves_iff auraProxy_fresh hlater
  obtain ⟨p', hp', hheir, -⟩ := hprocess ⟨0, 2, 3, 200, 1⟩ r (by decide +kernel)
    (by decide +kernel) (by decide +kernel) (by decide +kernel) hr
  rw [hr] at hgot
  refine ⟨_, p, p', hsum, hiff, hp', ?_⟩
  rw [hheir]
  exact Except.ok.inj hgot

/-- The account 2 sends 100 twice, and both arrive in one block while the bridge is paused :
200 are queued, of which 100 can be released. -/
theorem queue_loses : ¬∀ {p₀ p : ProxyOft AuraProxy} {log : List Event}, p₀.Fresh →
    Run p₀ log p → waiting (queuedOf log) = waiting (processedOf log) + p.releasable log := by
  intro h
  let es : List (Address × ProxyCall Empty) :=
    [(400, .pause), (9, .lzReceive 2 (.send (encodePacked 2) 100)),
      (9, .lzReceive 2 (.send (encodePacked 2) 100))]
  have hrun : Run auraProxy (auraProxy.after es).1 (auraProxy.after es).2 :=
    .after (by decide +kernel)
  have hlost : ¬waiting (queuedOf (auraProxy.after es).1) =
      waiting (processedOf (auraProxy.after es).1) +
        (auraProxy.after es).2.releasable (auraProxy.after es).1 := by
    decide +kernel
  exact hlost (h auraProxy_fresh hrun)

end Aura.Bridge
