import Aura.Bridge.AuraBalSpecs

/-!
# Bridge : the supply that AuraBalProxyOFT counts

`internalTotalSupply` counts what is outstanding, and beyond that every amount that was
credited to the proxy itself : such a credit is taken out of the vault and off the other
chains, but raises no balance, so that nothing is subtracted (`internalTotalSupply_iff`).
-/

open Evm Function

namespace Aura.Bridge

namespace AuraBalProxy

/-- The amounts that were credited to the proxy itself. -/
def selfCredits (s : AuraBalProxy) : ℕ :=
  ((s.credits.filter fun e => e.1 = s.self).map Prod.snd).sum

variable {s s' : AuraBalProxy} {n n' : ℕ}

theorem selfCredits_congr (hself : s'.self = s.self) (hc : s'.credits = s.credits) :
    s'.selfCredits = s.selfCredits := by
  unfold selfCredits
  rw [hself, hc]

theorem selfCredits_cons {dst : Address} (hself : s'.self = s.self)
    (hc : s'.credits = (dst, n) :: s.credits) :
    s'.selfCredits = (if dst = s.self then n else 0) + s.selfCredits := by
  unfold selfCredits
  rw [hself, hc]
  by_cases hd : dst = s.self
  · simp [hd]
  · simp [hd]

theorem selfCredits_eq_zero :
    s.selfCredits = 0 ↔ ∀ e ∈ s.credits, e.1 = s.self → e.2 = 0 := by
  unfold selfCredits
  rw [List.sum_eq_zero_iff]
  constructor
  · intro h e he hself
    exact h e.2 (List.mem_map_of_mem (List.mem_filter.2 ⟨he, by simpa using hself⟩))
  · intro h k hk
    obtain ⟨e, he, rfl⟩ := List.mem_map.1 hk
    obtain ⟨he, hself⟩ := List.mem_filter.1 he
    exact h e he (by simpa using hself)

/-- A function of the heir counts what it sends. -/
theorem OwnDone.counted {ms : List Message} (h : OwnDone s s' ms) :
    s'.internalTotalSupply = s.internalTotalSupply + carried ms ∧
      s'.selfCredits = s.selfCredits := by
  cases h with
  | harvested us sum n es hd hm =>
    refine ⟨?_, selfCredits_congr hd.self hd.credits⟩
    rw [hd.internalTotalSupply, hm]
    rfl
  | processed token c hd =>
    rcases hd.sent with ⟨-, hm, hs⟩ | ⟨-, hm, -, tokens, hs, -⟩
    · exact ⟨by rw [hs, hm], by rw [hs]; rfl⟩
    · exact ⟨by rw [hs, hm]; rfl, by rw [hs]; rfl⟩
  | reconfigured hr hm =>
    obtain ⟨_, _, _, _, _, rfl⟩ := hr
    exact ⟨by rw [hm]; rfl, rfl⟩

theorem Elsewhere.counted (h : AuraBalProxy.Elsewhere s s') :
    s'.internalTotalSupply = s.internalTotalSupply ∧ s'.selfCredits = s.selfCredits := by
  cases h with
  | vault _ _ _ _ _ hs => exact ⟨by rw [hs], by rw [hs]; rfl⟩
  | moved _ _ _ _ _ _ _ _ hs => exact ⟨by rw [hs], by rw [hs]; rfl⟩

theorem counted_flow (h : s.internalTotalSupply = n + s.selfCredits) (hf : Flow s s' n n') :
    s'.internalTotalSupply = n' + s'.selfCredits := by
  cases hf with
  | same hs hn => rw [hs, hn, h]
  | debited sender src k r hr hs hn =>
    have hd := debitFrom_eq_ok hr
    rw [hs, hn, hd.internalTotalSupply, selfCredits_congr hd.self hd.credits, h]
    omega
  | credited dst k r hr hs hn =>
    have hd := creditTo_eq_ok hr
    have hi := hd.internalTotalSupply
    have hc := selfCredits_cons hd.self hd.credits
    rw [hs]
    split_ifs at hi hc <;> omega
  | locked _ _ _ hl => cases hl
  | own p sender c r hp hr hs hn =>
    obtain ⟨hi, hc⟩ := (execOwn_eq_ok hr).counted
    rw [hp] at hi hc
    rw [hs, hn, hi, hc, h]
    omega
  | elsewhere he hn =>
    obtain ⟨hi, hc⟩ := he.counted
    rw [hi, hc, hn, h]

theorem Deployed.counted (h : AuraBalProxy.Deployed s) :
    s.internalTotalSupply = 0 + s.selfCredits := by
  unfold selfCredits
  rw [h.internalTotalSupply, h.credits]
  rfl

end AuraBalProxy

theorem Reachable.counted {b : Network AuraBalProxy} (h : Reachable b) :
    b.proxy.heir.internalTotalSupply = b.outstanding + b.proxy.heir.selfCredits :=
  h.induct (P := fun s n => s.internalTotalSupply = n + s.selfCredits)
    (fun _ => AuraBalProxy.Deployed.counted) fun _ _ _ _ => AuraBalProxy.counted_flow

/-- `internalTotalSupply` is what is outstanding exactly as long as nothing was credited to
the proxy itself. -/
theorem internalTotalSupply_iff {b : Network AuraBalProxy} (h : Reachable b) :
    b.proxy.heir.internalTotalSupply = b.outstanding ↔
      ∀ e ∈ b.proxy.heir.credits, e.1 = b.proxy.heir.self → e.2 = 0 := by
  have hcount := h.counted
  rw [← AuraBalProxy.selfCredits_eq_zero]
  omega

/-- The account 1 bridges 100 to the account 2, who sends 60 back to it. -/
theorem internalTotalSupply_iff_run : ∃ b : Network AuraBalProxy, Reachable b ∧
    b.proxy.heir.internalTotalSupply = 40 ∧ b.outstanding = 40 := by
  let start : Network AuraBalProxy := .initial 1 (.initial 0) 1000
  let log : List (Address × Call AuraBalProxy.Own) :=
    [(1, .sendFrom 1 2 (encodePacked 2) 100), (9, .lzReceive ⟨1, 2, .send (encodePacked 2) 100⟩),
      (2, .oftSendFrom 2 2 1 (encodePacked 1) 60),
      (9, .lzReceive ⟨2, 1, .send (encodePacked 1) 60⟩)]
  have hrun : Reachable (start.after log) :=
    .after (.deployed (Network.initial_deployed (AuraBalProxy.initial_deployed 0)))
      (by decide +kernel)
  have hcredits : ∀ e ∈ (start.after log).proxy.heir.credits,
      e.1 = (start.after log).proxy.heir.self → e.2 = 0 := by decide +kernel
  have hcount : (start.after log).proxy.heir.internalTotalSupply = 40 := by decide +kernel
  have hsame := (internalTotalSupply_iff hrun).2 hcredits
  exact ⟨_, hrun, hcount, hsame ▸ hcount⟩

/-- The same with the proxy, at the address 300, as the recipient : 100 are counted and 40
outstanding. -/
theorem internalTotalSupply_selfCredit :
    ¬∀ {b : Network AuraBalProxy}, Reachable b →
      b.proxy.heir.internalTotalSupply = b.outstanding := by
  intro h
  let start : Network AuraBalProxy := .initial 1 (.initial 0) 1000
  let log : List (Address × Call AuraBalProxy.Own) :=
    [(1, .sendFrom 1 2 (encodePacked 2) 100), (9, .lzReceive ⟨1, 2, .send (encodePacked 2) 100⟩),
      (2, .oftSendFrom 2 2 1 (encodePacked 300) 60),
      (9, .lzReceive ⟨2, 1, .send (encodePacked 300) 60⟩)]
  have hrun : Reachable (start.after log) :=
    .after (.deployed (Network.initial_deployed (AuraBalProxy.initial_deployed 0)))
      (by decide +kernel)
  have hself : (start.after log).proxy.heir.selfCredits = 60 := by decide +kernel
  have := h hrun
  have := hrun.counted
  omega

end Aura.Bridge
