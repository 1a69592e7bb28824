import Aura.ArraySort
import Aura.Snapshot.Result
import Aura.Writes
import Mathlib.Algebra.Order.BigOperators.Group.List

/-!
# The task snapshot:result : the order of the votes

The weights of all gauges must never add up to more than the voting power, also while the
votes are sent. Votes of weight zero come first, and the others by their delta. So no weight
is lowered after one was raised, and the weights are never above both the first and the last
(`Writes.written_take_le`). The first fit by assumption, the last because the new weights add
up to the total (`votes_fit`).

The votes are for known gauges only. As their weights add up to the total, no new weight is
left out.
-/

open ArraySort

namespace Aura.Snapshot

variable {Percentage : Type}
  {sort : (Vote Percentage → Vote Percentage → ℤ) → List (Vote Percentage) →
    List (Vote Percentage)}
  {share : List Percentage → Percentage → ℤ} {power : String → ℕ} {gaugeSnapshot : List String}
  {successfulGauges : List (SuccessfulGauge Percentage)} {weights : List ℤ}
  {votes votes' : List (Vote Percentage)} {address : String}

/-- What the task relies on of `sort`. -/
structure Sorts (sort : (Vote Percentage → Vote Percentage → ℤ) → List (Vote Percentage) →
    List (Vote Percentage)) : Prop where
  lowestDelta : ∀ votes, OrdersBy Vote.voteDelta votes (sort lowestDelta votes)
  zeroWeight : ∀ votes, MovesToFront (fun v => v.voteWeight = 0) votes (sort zeroWeight votes)

/-- The weights of the gauges when the votes were sent, in their order. -/
def sent (power : String → ℕ) (votes : List (Vote Percentage)) : String → ℕ :=
  Writes.written power (votes.map fun v => (v.gauge.address, v.voteWeight.toNat))

theorem bind_eq_ok {α β : Type} {x : Except Stop α} {f : α → Except Stop β} {b : β} :
    (x >>= f) = .ok b ↔ ∃ a, x = .ok a ∧ f a = .ok b := by
  cases x with
  | ok a => exact ⟨fun h => ⟨a, rfl, h⟩, fun ⟨_, ha, h⟩ => by cases ha; exact h⟩
  | error e => exact ⟨nofun, nofun⟩

theorem toNumber_eq_ok {n : ℕ} {x : ℤ} (h : toNumber n = .ok x) : x = n := by
  unfold toNumber at h
  split_ifs at h
  cases h
  rfl

/-! ## New weights -/

theorem newWeights_eq_ok (h : newWeights share successfulGauges = .ok weights) :
    weights.length = successfulGauges.length ∧ weights.sum = totalVotes := by
  unfold newWeights at h
  dsimp only at h
  split_ifs at h with hsum
  cases h
  exact ⟨by simp, not_not.1 hsum⟩

/-- The entry that the task finds for a gauge. -/
def entry (successfulGauges : List (SuccessfulGauge Percentage)) (address : String) : Option ℕ :=
  successfulGauges.findIdx? fun g => some address = g.address

/-- The new weight of a gauge. -/
def newWeight (successfulGauges : List (SuccessfulGauge Percentage)) (weights : List ℤ)
    (address : String) : ℤ :=
  match entry successfulGauges address with
  | some idx => weights.getD idx 0
  | none => 0

theorem entry_eq_some {i : ℕ} (h : entry successfulGauges address = some i) :
    ∃ hi : i < successfulGauges.length, successfulGauges[i].address = some address := by
  obtain ⟨hlt, ha, -⟩ := List.findIdx?_eq_some_iff_getElem.1 h
  exact ⟨hlt, (of_decide_eq_true ha).symm⟩

theorem newWeight_of_entry {i : ℕ} (h : entry successfulGauges address = some i) :
    newWeight successfulGauges weights address = weights.getD i 0 := by
  rw [newWeight, h]

theorem newWeight_of_none (h : entry successfulGauges address = none) :
    newWeight successfulGauges weights address = 0 := by
  rw [newWeight, h]

/-- A gauge has the weight of one of its entries, or none. -/
theorem newWeight_cases (successfulGauges : List (SuccessfulGauge Percentage))
    (weights : List ℤ) (address : String) : newWeight successfulGauges weights address = 0 ∨
    ∃ g w, (g, w) ∈ successfulGauges.zip weights ∧ g.address = some address ∧
      newWeight successfulGauges weights address = w := by
  cases he : entry successfulGauges address with
  | none => exact .inl (newWeight_of_none he)
  | some i =>
    obtain ⟨hlt, ha⟩ := entry_eq_some he
    rw [newWeight_of_entry he, List.getD_eq_getElem?_getD]
    cases hw : weights[i]? with
    | none => exact .inl rfl
    | some w =>
      have hzip : (successfulGauges.zip weights)[i]? = some (successfulGauges[i], w) :=
        List.getElem?_zip_eq_some.2 ⟨List.getElem?_eq_getElem hlt, hw⟩
      exact .inr ⟨successfulGauges[i], w, List.mem_of_getElem? hzip, ha, rfl⟩

theorem newWeight_nonneg (successfulGauges : List (SuccessfulGauge Percentage))
    (h : ∀ w ∈ weights, 0 ≤ w) (address : String) :
    0 ≤ newWeight successfulGauges weights address := by
  rcases newWeight_cases successfulGauges weights address with h0 | ⟨g, w, hzip, -, hw⟩
  · exact h0.ge
  · rw [hw]
    exact h w (List.of_mem_zip hzip).2

/-- What stands at some places adds up to no more than the whole list. -/
theorem sum_getD_le {places : List ℕ} (hplaces : places.Nodup)
    (hlt : ∀ i ∈ places, i < weights.length) (h : ∀ w ∈ weights, 0 ≤ w) :
    (places.map fun i => weights.getD i 0).sum ≤ weights.sum := by
  have hrange : (List.range weights.length).map (fun i => weights.getD i 0) = weights :=
    List.ext_getElem (by simp) fun i _ hi => by simp [hi]
  have hsub : places ⊆ List.range weights.length := fun i hi => List.mem_range.2 (hlt i hi)
  obtain ⟨l, hperm, hl⟩ := hplaces.subperm hsub
  have hl' := hl.map fun i => weights.getD i 0
  rw [hrange] at hl'
  rw [← (hperm.map _).sum_eq]
  exact hl'.sum_le_sum h

theorem sum_newWeight (l : List String) : (l.map (newWeight successfulGauges weights)).sum =
    ((l.filterMap (entry successfulGauges)).map fun i => weights.getD i 0).sum := by
  induction l with
  | nil => rfl
  | cons a l ih =>
    rw [List.map_cons, List.sum_cons, ih]
    cases he : entry successfulGauges a with
    | none => rw [newWeight_of_none he, zero_add, List.filterMap_cons_none he]
    | some i =>
      rw [newWeight_of_entry he, List.filterMap_cons_some he, List.map_cons, List.sum_cons]

/-- If the weights of the gauges add up to all new weights, then every new weight that is not
zero is the weight of a gauge. -/
theorem exists_newWeight (hgauges : gaugeSnapshot.Nodup)
    (hlen : weights.length = successfulGauges.length) (hweights : ∀ w ∈ weights, 0 ≤ w)
    (hsum : (gaugeSnapshot.map (newWeight successfulGauges weights)).sum = weights.sum)
    {g : SuccessfulGauge Percentage} {w : ℤ} (h : (g, w) ∈ successfulGauges.zip weights)
    (hw : w ≠ 0) : ∃ a ∈ gaugeSnapshot, g.address = some a ∧
      newWeight successfulGauges weights a = w := by
  obtain ⟨i, hi⟩ := List.mem_iff_getElem?.1 h
  obtain ⟨hig, hiw⟩ := List.getElem?_zip_eq_some.1 hi
  obtain ⟨hlt, rfl⟩ := List.getElem?_eq_some_iff.1 hig
  have hgetD : weights.getD i 0 = w := by rw [List.getD_eq_getElem?_getD, hiw, Option.getD_some]
  by_cases hmem : i ∈ gaugeSnapshot.filterMap (entry successfulGauges)
  · obtain ⟨a, ha, hai⟩ := List.mem_filterMap.1 hmem
    exact ⟨a, ha, (entry_eq_some hai).2, (newWeight_of_entry hai).trans hgetD⟩
  · -- else the entries of the gauges and this one add up to too much
    have hnodup : (i :: gaugeSnapshot.filterMap (entry successfulGauges)).Nodup := by
      refine List.nodup_cons.2 ⟨hmem, hgauges.filterMap fun a a' j ha ha' => ?_⟩
      obtain ⟨_, hj⟩ := entry_eq_some ha
      obtain ⟨_, hj'⟩ := entry_eq_some ha'
      exact Option.some.inj (hj.symm.trans hj')
    have hle := sum_getD_le hnodup (fun j hj => ?_) hweights
    · rw [List.map_cons, List.sum_cons, hgetD, ← sum_newWeight, hsum] at hle
      have := hweights w (List.mem_of_getElem? hiw)
      omega
    · rw [hlen]
      rcases List.mem_cons.1 hj with rfl | hj
      · exact hlt
      · obtain ⟨a, -, ha⟩ := List.mem_filterMap.1 hj
        exact (entry_eq_some ha).1

/-! ## The votes -/

variable [Zero Percentage]

/-- The votes for some gauges, in any order. -/
structure VotesFor (successfulGauges : List (SuccessfulGauge Percentage)) (weights : List ℤ)
    (power : String → ℕ) (gauges : List String) (votes : List (Vote Percentage)) : Prop where
  nodup : gauges.Nodup → (votes.map fun v => v.gauge.address).Nodup
  mem : ∀ v ∈ votes, v.gauge.address ∈ gauges
  weight : ∀ v ∈ votes, v.voteWeight = newWeight successfulGauges weights v.gauge.address
  /-- A vote that resets a gauge has a delta of the other sign. -/
  delta : ∀ v ∈ votes, v.voteWeight ≠ 0 → v.voteDelta = v.voteWeight - power v.gauge.address
  /-- A gauge without a vote has no weight and gets none. -/
  skipped : ∀ a ∈ gauges, (∀ v ∈ votes, v.gauge.address ≠ a) →
    power a = 0 ∧ newWeight successfulGauges weights a = 0
  sum : (votes.map Vote.voteWeight).sum = (gauges.map (newWeight successfulGauges weights)).sum

variable {gauges : List String}

omit [Zero Percentage] in
theorem VotesFor.perm (h : VotesFor successfulGauges weights power gauges votes)
    (hp : votes'.Perm votes) : VotesFor successfulGauges weights power gauges votes' where
  nodup hn := ((hp.map _).nodup_iff).2 (h.nodup hn)
  mem v hv := h.mem v (hp.mem_iff.1 hv)
  weight v hv := h.weight v (hp.mem_iff.1 hv)
  delta v hv := h.delta v (hp.mem_iff.1 hv)
  skipped a ha hne := h.skipped a ha fun v hv => hne v (hp.mem_iff.2 hv)
  sum := ((hp.map _).sum_eq).trans h.sum

omit [Zero Percentage] in
/-- A vote for another gauge. -/
theorem VotesFor.push {v : Vote Percentage}
    (h : VotesFor successfulGauges weights power gauges votes) (ha : v.gauge.address = address)
    (hweight : v.voteWeight = newWeight successfulGauges weights address)
    (hdelta : v.voteWeight ≠ 0 → v.voteDelta = v.voteWeight - power address) :
    VotesFor successfulGauges weights power (gauges ++ [address]) (votes ++ [v]) := by
  subst ha
  have hcases : ∀ u ∈ votes ++ [v], u ∈ votes ∨ u = v := fun u hu =>
    (List.mem_append.1 hu).imp_right List.mem_singleton.1
  refine ⟨fun hn => ?_, fun u hu => ?_, fun u hu => ?_, fun u hu => ?_, fun a ha hne => ?_, ?_⟩
  · rw [List.nodup_append] at hn
    rw [List.map_append, List.nodup_append]
    refine ⟨h.nodup hn.1, List.nodup_singleton _, fun a ha b hb => ?_⟩
    obtain ⟨u, hu, rfl⟩ := List.mem_map.1 ha
    exact hn.2.2 _ (h.mem u hu) b hb
  · rcases hcases u hu with hu | rfl
    · exact List.mem_append_left _ (h.mem u hu)
    · exact List.mem_append_right _ (List.mem_singleton.2 rfl)
  · rcases hcases u hu with hu | rfl
    · exact h.weight u hu
    · exact hweight
  · rcases hcases u hu with hu | rfl
    · exact h.delta u hu
    · exact hdelta
  · rcases List.mem_append.1 ha with ha | ha
    · exact h.skipped a ha fun u hu => hne u (List.mem_append_left _ hu)
    · exact absurd (List.mem_singleton.1 ha).symm (hne v (by simp))
  · rw [List.map_append, List.sum_append, List.map_append, List.sum_append, h.sum]
    simp [hweight]

/-- A round of the loop. -/
theorem VotesFor.pushVote (h : VotesFor successfulGauges weights power gauges votes)
    (hx : pushVote successfulGauges weights votes ⟨address, power address⟩ = .ok votes') :
    VotesFor successfulGauges weights power (gauges ++ [address]) votes' := by
  unfold Snapshot.pushVote at hx
  cases he : entry successfulGauges address with
  | some idx =>
    have hfind : (successfulGauges.findIdx? fun g => some address = g.address) = some idx := he
    rw [hfind] at hx
    obtain ⟨x, hx', hx⟩ := bind_eq_ok.1 hx
    obtain rfl := toNumber_eq_ok hx'
    cases hx
    exact h.push rfl (newWeight_of_entry he).symm fun _ => rfl
  | none =>
    have hfind : (successfulGauges.findIdx? fun g => some address = g.address) = none := he
    rw [hfind] at hx
    dsimp only at hx
    split_ifs at hx with hpos
    · obtain ⟨x, -, hx⟩ := bind_eq_ok.1 hx
      cases hx
      exact h.push rfl (newWeight_of_none he).symm fun hne => absurd rfl hne
    · cases hx
      refine ⟨fun hn => h.nodup (List.nodup_append.1 hn).1,
        fun v hv => List.mem_append_left _ (h.mem v hv), h.weight, h.delta, fun a ha hne => ?_, ?_⟩
      · rcases List.mem_append.1 ha with ha | ha
        · exact h.skipped a ha hne
        · rw [List.mem_singleton.1 ha]
          exact ⟨Nat.eq_zero_of_not_pos hpos, newWeight_of_none he⟩
      · rw [List.map_append, List.sum_append, h.sum]
        simp [newWeight_of_none he]

/-- The loop. -/
theorem VotesFor.pushVotes : ∀ {l gauges : List String} {votes : List (Vote Percentage)},
    VotesFor successfulGauges weights power gauges votes →
    (l.map fun a => (⟨a, power a⟩ : Gauge)).foldlM (Snapshot.pushVote successfulGauges weights)
      votes = .ok votes' → VotesFor successfulGauges weights power (gauges ++ l) votes'
  | [], gauges, votes, h, hx => by
    cases hx
    rwa [List.append_nil]
  | a :: l, gauges, votes, h, hx => by
    rw [List.map_cons, List.foldlM_cons] at hx
    obtain ⟨votes₁, h₁, hx⟩ := bind_eq_ok.1 hx
    have hrest := VotesFor.pushVotes (h.pushVote h₁) hx
    rwa [List.append_assoc] at hrest

/-- The votes of the task : those for all gauges, with the total weight, and in an order in
which only votes that raise a weight follow one that does. -/
structure Ordered (successfulGauges : List (SuccessfulGauge Percentage)) (weights : List ℤ)
    (power : String → ℕ) (gaugeSnapshot : List String) (votes : List (Vote Percentage)) :
    Prop extends VotesFor successfulGauges weights power gaugeSnapshot votes where
  total : (votes.map Vote.voteWeight).sum = totalVotes
  ordered : votes.Pairwise fun u v => u.voteWeight ≠ 0 →
    v.voteWeight ≠ 0 ∧ u.voteDelta ≤ v.voteDelta

theorem result_eq_ok (hsort : Sorts sort)
    (hweights : newWeights share successfulGauges = .ok weights)
    (h : result sort share power gaugeSnapshot successfulGauges = .ok votes) :
    Ordered successfulGauges weights power gaugeSnapshot votes := by
  unfold result at h
  rw [hweights] at h
  obtain ⟨weights', hw, h⟩ := bind_eq_ok.1 h
  cases hw
  obtain ⟨votes₀, h₀, h⟩ := bind_eq_ok.1 h
  dsimp only at h
  split_ifs at h with htotal
  cases h
  have hdelta := hsort.lowestDelta votes₀
  have hzero := hsort.zeroWeight (sort lowestDelta votes₀)
  have hnone : VotesFor successfulGauges weights power [] ([] : List (Vote Percentage)) :=
    ⟨fun _ => List.nodup_nil, nofun, nofun, nofun, nofun, rfl⟩
  refine ⟨(hnone.pushVotes h₀).perm (hzero.perm.trans hdelta.perm), not_not.1 htotal, ?_⟩
  refine (hzero.ordered hdelta).imp fun himp hne => ?_
  obtain ⟨hv, hle⟩ := himp (decide_eq_false hne)
  exact ⟨of_decide_eq_false hv, hle⟩

/-! ## Sending the votes -/

omit [Zero Percentage]

theorem VotesFor.nodup_sent (h : VotesFor successfulGauges weights power gauges votes)
    (hgauges : gauges.Nodup) :
    ((votes.map fun v => (v.gauge.address, v.voteWeight.toNat)).map Prod.fst).Nodup := by
  rw [List.map_map]
  exact h.nodup hgauges

/-- After the votes every gauge has its new weight. -/
theorem VotesFor.sent_eq (h : VotesFor successfulGauges weights power gauges votes)
    (hgauges : gauges.Nodup) (hweights : ∀ w ∈ weights, 0 ≤ w) {a : String} (ha : a ∈ gauges) :
    (sent power votes a : ℤ) = newWeight successfulGauges weights a := by
  have hnonneg := newWeight_nonneg successfulGauges hweights a
  by_cases hvote : ∃ v ∈ votes, v.gauge.address = a
  · obtain ⟨v, hv, rfl⟩ := hvote
    have hsent : sent power votes v.gauge.address = v.voteWeight.toNat :=
      Writes.written_of_mem (h.nodup_sent hgauges) (List.mem_map_of_mem hv)
    rw [hsent, h.weight v hv]
    exact Int.toNat_of_nonneg hnonneg
  · have hne : ∀ v ∈ votes, v.gauge.address ≠ a := fun v hv he => hvote ⟨v, hv, he⟩
    obtain ⟨hpower, hzero⟩ := h.skipped a ha hne
    have hkey : a ∉ (votes.map fun v => (v.gauge.address, v.voteWeight.toNat)).map Prod.fst := by
      rw [List.map_map, List.mem_map]
      exact fun ⟨v, hv, he⟩ => hne v hv he
    rw [sent, Writes.written_of_notMem power hkey, hpower, hzero]
    rfl

/-- No weight is lowered after one was raised. -/
theorem Ordered.raises (h : Ordered successfulGauges weights power gaugeSnapshot votes) :
    (votes.map fun v => (v.gauge.address, v.voteWeight.toNat)).Pairwise fun x y =>
      power x.1 < x.2 → power y.1 ≤ y.2 := by
  rw [List.pairwise_map]
  refine h.ordered.imp_of_mem fun {u v} hu hv huv hlt => ?_
  have hne : u.voteWeight ≠ 0 := fun h0 => by simp [h0] at hlt
  obtain ⟨hne', hle⟩ := huv hne
  have hdelta := h.delta u hu hne
  have hdelta' := h.delta v hv hne'
  dsimp only at hlt ⊢
  omega

/-- The weights of the gauges after the votes add up to the total. -/
theorem Ordered.sum_sent (h : Ordered successfulGauges weights power gaugeSnapshot votes)
    (hgauges : gaugeSnapshot.Nodup) (hweights : ∀ w ∈ weights, 0 ≤ w) :
    ((gaugeSnapshot.map (sent power votes)).sum : ℤ) = totalVotes := by
  have hsent : gaugeSnapshot.map (fun a => (sent power votes a : ℤ)) =
      gaugeSnapshot.map (newWeight successfulGauges weights) :=
    List.map_congr_left fun a ha => h.sent_eq hgauges hweights ha
  rw [Nat.cast_list_sum, List.map_map]
  exact (congrArg List.sum hsent).trans (h.sum.symm.trans h.total)

/-- If the weights that the voter has given to distinct gauges add up to no more than the
total, and no new weight is negative, then after any number of the votes they still do. After
all votes the weights are the new ones, and a gauge that gets none has none. -/
theorem votes_fit [Zero Percentage] (hsort : Sorts sort) (hgauges : gaugeSnapshot.Nodup)
    (hpower : ((gaugeSnapshot.map power).sum : ℤ) ≤ totalVotes)
    (hnew : newWeights share successfulGauges = .ok weights) (hweights : ∀ w ∈ weights, 0 ≤ w)
    (h : result sort share power gaugeSnapshot successfulGauges = .ok votes) :
    (∀ n, ((gaugeSnapshot.map (sent power (votes.take n))).sum : ℤ) ≤ totalVotes) ∧
      (∀ g w, (g, w) ∈ successfulGauges.zip weights → w ≠ 0 →
        ∃ a ∈ gaugeSnapshot, g.address = some a ∧ sent power votes a = w) ∧
      ∀ a ∈ gaugeSnapshot, (∀ g w, (g, w) ∈ successfulGauges.zip weights →
        g.address = some a → w = 0) → sent power votes a = 0 := by
  have ho := result_eq_ok hsort hnew h
  obtain ⟨hlen, htotal⟩ := newWeights_eq_ok hnew
  refine ⟨fun n => ?_, fun g w hzip hw => ?_, fun a ha hzero => ?_⟩
  · have hsum := ho.sum_sent hgauges hweights
    have hbound {f g : String → ℕ} (hle : f ≤ g) :
        (gaugeSnapshot.map f).sum ≤ (gaugeSnapshot.map g).sum :=
      List.sum_le_sum fun a _ => hle a
    unfold sent at hsum ⊢
    rw [List.map_take]
    rcases Writes.written_take_le (ho.nodup_sent hgauges) ho.raises n with hle | hle
    · have := hbound hle
      omega
    · have := hbound hle
      omega
  · have hall := ho.sum.symm.trans (ho.total.trans htotal.symm)
    obtain ⟨a, ha, hga, hwa⟩ := exists_newWeight hgauges hlen hweights hall hzip hw
    exact ⟨a, ha, hga, (ho.sent_eq hgauges hweights ha).trans hwa⟩
  · have hsent := ho.sent_eq hgauges hweights ha
    rcases newWeight_cases successfulGauges weights a with h0 | ⟨g, w, hzip, hga, hwa⟩
    · exact_mod_cast hsent.trans h0
    · exact_mod_cast hsent.trans (hwa.trans (hzero g w hzip hga))

/-! ## A computed run -/

/-- Insertion is all that the task relies on. -/
theorem sorts_insertion : Sorts (ArraySort.sort (α := Vote ℕ)) where
  lowestDelta votes := sort_ordersBy Vote.voteDelta votes
  zeroWeight votes := by
    have hfun : (zeroWeight : Vote ℕ → Vote ℕ → ℤ) =
        fun a _ => if decide (a.voteWeight = 0) = true then -1 else 1 := by
      funext a b
      simp [zeroWeight]
    rw [hfun]
    exact sort_movesToFront (fun v : Vote ℕ => v.voteWeight = 0) votes

def samplePower (address : String) : ℕ :=
  if address = "a" then 5000 else if address = "b" then 3000 else if address = "c" then 2000 else 0

def sampleGauges : List (SuccessfulGauge ℕ) :=
  [⟨3, some "d"⟩, ⟨3, some "b"⟩, ⟨1, some "a"⟩]

def sampleShare (percentages : List ℕ) (percentage : ℕ) : ℤ :=
  (10000 * percentage / percentages.sum : ℕ)

/-- The gauge `c` is reset, `a` is lowered, and then `b` and `d` are raised. -/
theorem votes_fit_run : ∃ votes,
    result ArraySort.sort sampleShare samplePower ["a", "b", "c", "d"] sampleGauges = .ok votes ∧
    votes.map (fun v => (v.gauge.address, v.voteWeight)) =
      [("c", 0), ("a", 1428), ("b", 4285), ("d", 4287)] ∧
    ∀ n, ((["a", "b", "c", "d"].map (sent samplePower (votes.take n))).sum : ℤ) ≤ totalVotes := by
  have hnew : newWeights sampleShare sampleGauges = .ok [4287, 4285, 1428] := by decide +kernel
  have h : result ArraySort.sort sampleShare samplePower ["a", "b", "c", "d"] sampleGauges =
      .ok [⟨⟨"c", 2000⟩, 2000, 0, 0⟩, ⟨⟨"a", 5000⟩, -3572, 1428, 1⟩,
        ⟨⟨"b", 3000⟩, 1285, 4285, 3⟩, ⟨⟨"d", 0⟩, 4287, 4287, 3⟩] := by
    decide +kernel
  have hfit := votes_fit sorts_insertion (by decide +kernel) (by decide +kernel) hnew
    (by decide) h
  exact ⟨_, h, rfl, hfit.1⟩

end Aura.Snapshot
