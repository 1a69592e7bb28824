import Aura.AuraMath
import Aura.Evm.Buffer

/-!
# BoosterHelper

The views of `BoosterHelper.sol` that a keeper asks which reward pools to process. They fill a
buffer and cut off what is left of it. For pool ids a buffer with a place for every pool is
always large enough (`getIdlePoolIds_eq`, `getExpiredPools_eq`). For pool addresses it has two
places for every pool, and a pool may have any number of virtual pools : the call reverts as
soon as more are idle than there are places (`getIdleBaseAndVirtualPools_iff`).

The booster and the reward pools are what their view functions return. Memory is unlimited :
an array is refused only if its length is not a word.
-/

open Evm

namespace Aura.Peripheral

/-- `IBooster.PoolInfo`. -/
structure PoolInfo where
  lptoken : Address
  token : Address
  gauge : Address
  crvRewards : Address
  stash : Address
  shutdown : Bool
  deriving DecidableEq

/-- `BoosterHelper.PoolInfo`. -/
structure ExpiredPool extends PoolInfo where
  pid : ℕ
  deriving DecidableEq

/-- `IBaseRewardPool`. -/
structure BaseRewardPool where
  lastTimeRewardApplicable : ℕ
  periodFinish : ℕ
  queuedRewards : ℕ
  extraRewards : List Address

/-- The booster, the reward pools and `block.timestamp`. -/
structure Booster where
  now : ℕ
  poolInfo : List PoolInfo
  rewardPool : Address → BaseRewardPool

namespace Booster

def poolLength (b : Booster) : ℕ :=
  b.poolInfo.length

/-! ## Internal -/

/-- `_isExpiredWithoutQueuedRewards`. -/
def _isExpiredWithoutQueuedRewards (b : Booster) (poolInfo : PoolInfo) (daysToExpiration : ℕ) :
    Tx Bool :=
  if poolInfo.shutdown = true then .ok false
  else
    let baseRewardPool := b.rewardPool poolInfo.crvRewards
    if 0 < baseRewardPool.queuedRewards then .ok false
    else if baseRewardPool.periodFinish < b.now then .ok true
    else do
      let x ← usub baseRewardPool.periodFinish baseRewardPool.lastTimeRewardApplicable
      .ok (decide (x / 86400 ≤ daysToExpiration))

/-- `_isExpiredWithQueuedRewards` of an address. -/
def _isExpiredWithQueuedRewards (b : Booster) (crvRewards : Address) : Bool :=
  let baseRewardPool := b.rewardPool crvRewards
  if baseRewardPool.queuedRewards = 0 then false
  else decide (baseRewardPool.periodFinish < b.now)

/-- `_isExpiredWithQueuedRewards` of a pid, whose pool information is at hand. -/
def _isExpiredWithQueuedRewardsOf (b : Booster) (poolInfo : PoolInfo) : Bool :=
  if poolInfo.shutdown = true then false else b._isExpiredWithQueuedRewards poolInfo.crvRewards

/-- `_getVirtualRewardPools`. -/
def _getVirtualRewardPools (b : Booster) (crvRewards : Address) : Tx (List Address) :=
  let extraRewards := (b.rewardPool crvRewards).extraRewards
  copy 0 extraRewards extraRewards.length

/-- `_sliceArray`. -/
def _sliceArray {α : Type} (zero : α) (_arr : List α) (length : ℕ) : Tx (List α) :=
  copy zero _arr length

/-! ## External views -/

/-- The entry of a new array of pools. -/
def noPool : ExpiredPool :=
  ⟨⟨0, 0, 0, 0, 0, false⟩, 0⟩

/-- `getExpiredPools`. -/
def getExpiredPools (b : Booster) (start daysToExpiration : ℕ) : Tx (List ExpiredPool) := do
  let n ← usub b.poolLength start
  let r ← (List.range' start n).foldlM (fun r i => do
    let poolInfo ← index b.poolInfo i
    let expired ← b._isExpiredWithoutQueuedRewards poolInfo daysToExpiration
    if expired = true then push r { poolInfo with pid := i } else .ok r)
    (List.replicate n noPool, 0)
  _sliceArray noPool r.1 r.2

/-- `getIdlePoolIds`. -/
def getIdlePoolIds (b : Booster) (start : ℕ) : Tx (List ℕ) := do
  let n ← usub b.poolLength start
  let r ← (List.range' start n).foldlM (fun r i => do
    let poolInfo ← index b.poolInfo i
    if b._isExpiredWithQueuedRewardsOf poolInfo = true then push r i else .ok r)
    (List.replicate n 0, 0)
  _sliceArray 0 r.1 r.2

/-- `getIdleBaseAndVirtualPools`. -/
def getIdleBaseAndVirtualPools (b : Booster) (start : ℕ) : Tx (List Address) := do
  let n ← usub b.poolLength start
  let size ← umul 256 n 2
  let r ← (List.range' start n).foldlM (fun r i => do
    let poolInfo ← index b.poolInfo i
    let virtualRewardPools ← b._getVirtualRewardPools poolInfo.crvRewards
    let r ← virtualRewardPools.foldlM (fun r virtualRewardPool =>
      if b._isExpiredWithQueuedRewards virtualRewardPool = true then push r virtualRewardPool
      else .ok r) r
    if b._isExpiredWithQueuedRewards poolInfo.crvRewards = true then push r poolInfo.crvRewards
    else .ok r) (List.replicate size 0, 0)
  _sliceArray 0 r.1 r.2

/-! ## What they return -/

/-- The pools from `start` on with their ids. -/
def poolsFrom (b : Booster) (start : ℕ) : List (PoolInfo × ℕ) :=
  b.poolInfo.zipIdx.drop start

/-- The virtual pools of a pool, and the pool. -/
def rewardPools (b : Booster) (poolInfo : PoolInfo) : List Address :=
  (b.rewardPool poolInfo.crvRewards).extraRewards ++ [poolInfo.crvRewards]

/-- The idle ones of all of them. -/
def idlePools (b : Booster) (start : ℕ) : List Address :=
  (b.poolsFrom start).flatMap fun p => (b.rewardPools p.1).filter b._isExpiredWithQueuedRewards

variable {b : Booster} {start : ℕ}

theorem length_poolsFrom (b : Booster) (start : ℕ) :
    (b.poolsFrom start).length = b.poolLength - start := by
  unfold poolsFrom poolLength
  rw [List.length_drop, List.length_zipIdx]

theorem getVirtualRewardPools_eq (b : Booster) (crvRewards : Address) :
    b._getVirtualRewardPools crvRewards = .ok (b.rewardPool crvRewards).extraRewards := by
  unfold _getVirtualRewardPools
  rw [copy_of le_rfl, List.take_length]

/-- What was pushed is what is left when the rest is cut off. -/
theorem sliceArray_filled {α : Type} (zero : α) (m : ℕ) (xs : List α) :
    _sliceArray zero (filled zero m xs).1 (filled zero m xs).2 = .ok xs := by
  unfold _sliceArray filled
  rw [copy_of (by rw [List.length_append]; exact Nat.le_add_right _ _), List.take_left]

/-- A loop over the pools from `start` on, each of whose rounds pushes some entries into a
buffer of size `m`, returns all of them exactly if they fit. -/
theorem fill_eq {α : Type} {zero : α} {m n : ℕ}
    {body : List α × ℕ → ℕ → PoolInfo → Tx (List α × ℕ)} {out : PoolInfo × ℕ → List α}
    (hn : start + n = b.poolLength)
    (hbody : ∀ p ∈ b.poolsFrom start, ∀ r, body r p.2 p.1 = (out p).foldlM push r) :
    (do
      let r ← (List.range' start n).foldlM (fun r i => do
        let poolInfo ← index b.poolInfo i
        body r i poolInfo) (List.replicate m zero, 0)
      _sliceArray zero r.1 r.2) =
      if ((b.poolsFrom start).flatMap out).length ≤ m then
        .ok ((b.poolsFrom start).flatMap out)
      else .error .outOfBounds := by
  have hempty : (List.replicate m zero, 0) = filled zero m [] := rfl
  have hloop := foldlM_rounds hbody (filled zero m [])
  rw [foldlM_index hn, hempty, show b.poolInfo.zipIdx.drop start = b.poolsFrom start from rfl,
    hloop, foldlM_push (Nat.zero_le m), List.length_nil, Nat.zero_add, List.nil_append]
  split_ifs
  · rw [ok_bind, sliceArray_filled]
  · rfl

/-- A buffer with a place for every pool is large enough for one entry for each. -/
theorem fill_filterMap {α : Type} {zero : α} {n : ℕ}
    {body : List α × ℕ → ℕ → PoolInfo → Tx (List α × ℕ)} {g : PoolInfo × ℕ → Option α}
    (hn : start + n = b.poolLength)
    (hbody : ∀ p ∈ b.poolsFrom start, ∀ r, body r p.2 p.1 = (g p).toList.foldlM push r) :
    (do
      let r ← (List.range' start n).foldlM (fun r i => do
        let poolInfo ← index b.poolInfo i
        body r i poolInfo) (List.replicate n zero, 0)
      _sliceArray zero r.1 r.2) = .ok ((b.poolsFrom start).filterMap g) := by
  have hle : ((b.poolsFrom start).filterMap g).length ≤ n := by
    refine (List.length_filterMap_le _ _).trans (le_of_eq ?_)
    rw [length_poolsFrom]
    omega
  rw [fill_eq hn hbody, ← List.filterMap_eq_flatMap_toList, if_pos hle]

/-- The ids of the pools that are idle and not shut down. -/
theorem getIdlePoolIds_eq (h : start ≤ b.poolLength) :
    b.getIdlePoolIds start = .ok ((b.poolsFrom start).filterMap fun p =>
      if b._isExpiredWithQueuedRewardsOf p.1 = true then some p.2 else none) := by
  unfold getIdlePoolIds
  rw [usub_of h, ok_bind]
  refine fill_filterMap (Nat.add_sub_of_le h) fun p _ r => ?_
  split_ifs
  · exact (List.foldlM_cons.trans (bind_pure _)).symm
  · rfl

/-- Whether a pool has no queued rewards and expires within `daysToExpiration`. -/
def expires (b : Booster) (daysToExpiration : ℕ) (poolInfo : PoolInfo) : Bool :=
  let pool := b.rewardPool poolInfo.crvRewards
  !poolInfo.shutdown && decide (pool.queuedRewards = 0 ∧ (pool.periodFinish < b.now ∨
    (pool.periodFinish - pool.lastTimeRewardApplicable) / 86400 ≤ daysToExpiration))

theorem isExpiredWithoutQueuedRewards_eq {poolInfo : PoolInfo} {days : ℕ}
    (h : (b.rewardPool poolInfo.crvRewards).lastTimeRewardApplicable ≤
      (b.rewardPool poolInfo.crvRewards).periodFinish) :
    b._isExpiredWithoutQueuedRewards poolInfo days = .ok (b.expires days poolInfo) := by
  unfold _isExpiredWithoutQueuedRewards expires
  dsimp only
  rw [usub_of h]
  split_ifs with hs hq hf
  · simp [hs]
  · simp [hq.ne']
  · simp [hs, Nat.eq_zero_of_not_pos hq, hf]
  · simp [hs, Nat.eq_zero_of_not_pos hq, hf]

/-- The pools without queued rewards that have expired or soon do, as long as no reward pool
is past its period. -/
theorem getExpiredPools_eq (h : start ≤ b.poolLength) (days : ℕ)
    (hlast : ∀ p ∈ b.poolInfo, (b.rewardPool p.crvRewards).lastTimeRewardApplicable ≤
      (b.rewardPool p.crvRewards).periodFinish) :
    b.getExpiredPools start days = .ok ((b.poolsFrom start).filterMap fun p =>
      if b.expires days p.1 = true then some { p.1 with pid := p.2 } else none) := by
  unfold getExpiredPools
  rw [usub_of h, ok_bind]
  refine fill_filterMap (Nat.add_sub_of_le h) fun p hp r => ?_
  have hmem : p.1 ∈ b.poolInfo := List.fst_mem_of_mem_zipIdx (List.mem_of_mem_drop hp)
  rw [isExpiredWithoutQueuedRewards_eq (hlast p.1 hmem), ok_bind]
  split_ifs
  · exact (List.foldlM_cons.trans (bind_pure _)).symm
  · rfl

/-- What one pool adds. -/
theorem push_rewardPools (b : Booster) (poolInfo : PoolInfo) (r : List Address × ℕ) :
    (do
      let virtualRewardPools ← b._getVirtualRewardPools poolInfo.crvRewards
      let r ← virtualRewardPools.foldlM (fun r virtualRewardPool =>
        if b._isExpiredWithQueuedRewards virtualRewardPool = true then push r virtualRewardPool
        else .ok r) r
      if b._isExpiredWithQueuedRewards poolInfo.crvRewards = true then push r poolInfo.crvRewards
      else .ok r) =
    ((b.rewardPools poolInfo).filter b._isExpiredWithQueuedRewards).foldlM push r := by
  unfold rewardPools
  rw [getVirtualRewardPools_eq, ok_bind, List.foldlM_filter, List.foldlM_append]
  refine congrArg _ (funext fun r => ?_)
  exact (List.foldlM_cons.trans (bind_pure _)).symm

/-- The call returns the idle pools exactly if there are at most two for every pool from
`start` on, and the size of the buffer is a word. The ids of the idle pools, which the same
loop finds, always fit. -/
theorem getIdleBaseAndVirtualPools_iff (b : Booster) {start : ℕ} (h : start ≤ b.poolLength) :
    (b.getIdleBaseAndVirtualPools start = .ok (b.idlePools start) ↔
      ((b.poolsFrom start).map fun p =>
          (b.rewardPools p.1).countP b._isExpiredWithQueuedRewards).sum ≤
        2 * (b.poolLength - start) ∧ 2 * (b.poolLength - start) < 2 ^ 256) ∧
    b.getIdlePoolIds start = .ok ((b.poolsFrom start).filterMap fun p =>
      if b._isExpiredWithQueuedRewardsOf p.1 = true then some p.2 else none) := by
  refine ⟨?_, getIdlePoolIds_eq h⟩
  have hcount : (b.idlePools start).length = ((b.poolsFrom start).map fun p =>
      (b.rewardPools p.1).countP b._isExpiredWithQueuedRewards).sum := by
    unfold idlePools
    rw [List.length_flatMap]
    simp only [List.countP_eq_length_filter]
  rw [← hcount, Nat.mul_comm 2]
  unfold getIdleBaseAndVirtualPools
  rw [usub_of h, ok_bind]
  by_cases hfits : (b.poolLength - start) * 2 < 2 ^ 256
  · rw [umul_of hfits, ok_bind, fill_eq (Nat.add_sub_of_le h) fun p _ r => push_rewardPools b p.1 r]
    show (if (b.idlePools start).length ≤ _ then _ else _) = _ ↔ _
    split_ifs with hle
    · exact iff_of_true rfl ⟨hle, hfits⟩
    · exact iff_of_false nofun fun hn => hle hn.1
  · refine iff_of_false (fun hx => ?_) fun hn => hfits hn.2
    obtain ⟨size, hsize, -⟩ := bind_eq_ok.1 hx
    exact hfits (umul_eq_ok.1 hsize).1

/-- A booster with `n` pools that share a reward pool with the given virtual pools, all of
them idle. -/
def idle (n : ℕ) (extraRewards : List Address) : Booster where
  now := 100
  poolInfo := List.replicate n ⟨1, 2, 3, 10, 4, false⟩
  rewardPool a := ⟨50, 50, 7, if a = 10 then extraRewards else []⟩

/-- A pool with one virtual pool. -/
theorem getIdleBaseAndVirtualPools_iff_run :
    (idle 1 [11]).getIdleBaseAndVirtualPools 0 = .ok [11, 10] :=
  ((idle 1 [11]).getIdleBaseAndVirtualPools_iff (Nat.zero_le _)).1.2
    (by decide +kernel)

/-- A pool with three virtual pools. -/
theorem getIdleBaseAndVirtualPools_reverts : ¬∀ (b : Booster) {start : ℕ}, start ≤ b.poolLength →
    b.getIdleBaseAndVirtualPools start = .ok (b.idlePools start) := by
  intro h
  have hx := h (idle 1 [11, 12, 13]) (Nat.zero_le _)
  have hreverts : (idle 1 [11, 12, 13]).getIdleBaseAndVirtualPools 0 = .error .outOfBounds := by
    decide +kernel
  rw [hreverts] at hx
  cases hx

end Booster

end Aura.Peripheral
