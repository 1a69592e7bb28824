import Aura.Evm.Memory
import Aura.Messages.CrossChainMessages

/-!
# Messages : BytesLib

The functions of `BytesLib.sol` that the contracts use, as the assembly computes them. `slice`
copies words that start before the slice, so that the last word ends where the slice does, and
then writes the length over what it copied in front.

`slice_exact` says that this gives the slice and keeps every value that is allocated.
-/

open Evm Evm.Abi Evm.Memory

namespace Aura.BytesLib

/-- `slice`. The value is at `_bytes`, and the loop goes on for `fuel` rounds at most. -/
def slice (fuel : ℕ) (m : Memory) (_bytes _start _length : ℕ) : Tx (ℕ × Memory) := do
  let n ← uadd 256 _length 31
  require (_length ≤ n) "slice_overflow"
  let stop ← uadd 256 _start _length
  require (stop ≤ m.mload _bytes) "slice_outOfBounds"
  let tempBytes := m.mload 0x40
  if iszero _length = 0 then do
    let lengthmod := _length &&& 31
    let mc := add (add tempBytes lengthmod) (mul 0x20 (iszero lengthmod))
    let stop := add mc _length
    let cc := add (add (add _bytes lengthmod) (mul 0x20 (iszero lengthmod))) _start
    let c ← copyWords fuel stop ⟨mc, cc, m⟩
    let m := c.memory.mstore tempBytes _length
    .ok (tempBytes, m.mstore 0x40 (add c.mc 31 &&& Memory.not 31))
  else
    let m := m.mstore tempBytes 0
    .ok (tempBytes, m.mstore 0x40 (add tempBytes 0x20))

variable {m : Memory} {_bytes _start _length fuel : ℕ}

/-! ## slice -/

/-- Where the first word is copied to, before the slice. -/
def lead (_length : ℕ) : ℕ :=
  _length % 32 + 32 * iszero (_length % 32)

/-- The words that are copied end where the slice ends. -/
theorem lead_add (_length : ℕ) :
    lead _length ≤ 32 ∧ lead _length + 32 * ((_length + 31) / 32) = 32 + _length := by
  unfold lead iszero
  split_ifs <;> omega

/-- The addresses of the loop, when no address overflows. -/
theorem add_lead {p : ℕ} (h : p + 64 < 2 ^ 256) :
    add (add p (_length &&& 31)) (mul 0x20 (iszero (_length &&& 31))) = p + lead _length := by
  have hmod : _length % 32 < 32 := Nat.mod_lt _ (by norm_num)
  have hmul : mul 0x20 (iszero (_length % 32)) = 32 * iszero (_length % 32) ∧
      32 * iszero (_length % 32) ≤ 32 := by
    unfold iszero
    split_ifs <;> decide
  rw [and_31, hmul.1, add_of (show p + _length % 32 < 2 ^ 256 by omega), add_of (by omega), lead,
    Nat.add_assoc]

/-- The memory after a slice that is not empty. -/
def sliced (m : Memory) (_bytes _start _length : ℕ) : Memory :=
  ((copied m (m.free + lead _length) (_bytes + lead _length + _start)
    (32 * ((_length + 31) / 32))).mstore m.free _length).mstore 0x40
      (32 * ((m.free + 32 + _length + 31) / 32))

theorem slice_of_pos (h : Allocated m _bytes) (hfree : m.free < 2 ^ 64) (hpos : 0 < _length)
    (hlen : _start + _length ≤ m.mload _bytes) (hfuel : _length ≤ fuel) :
    slice fuel m _bytes _start _length = .ok (m.free, sliced m _bytes _start _length) := by
  have hle := h.le_free
  obtain ⟨hlead, hend⟩ := lead_add _length
  have hmc := @add_lead _length m.free (by omega)
  have hcc := @add_lead _length _bytes (by omega)
  have hcopy := @copyWords_eq m (m.free + lead _length) (_bytes + lead _length + _start)
    (m.free + lead _length + _length) fuel ((_length + 31) / 32) 0 (by omega) (by omega) (by omega)
    (by omega) (by omega)
  have hstart : copied m (m.free + lead _length) (_bytes + lead _length + _start) 0 = m := by
    funext a
    exact copied_of_disjoint m (by omega)
  rw [hstart] at hcopy
  simp only [Nat.add_zero, Nat.zero_add] at hcopy
  have hmc' : m.free + lead _length + 32 * ((_length + 31) / 32) = m.free + 32 + _length := by omega
  have hzero : iszero _length = 0 := if_neg hpos.ne'
  unfold slice
  rw [uadd_of (by omega), ok_bind, require_of (Nat.le_add_right _ _), ok_bind, uadd_of (by omega),
    ok_bind, require_of hlen, ok_bind, if_pos hzero]
  dsimp only
  rw [show m.mload 0x40 = m.free from rfl, hmc, hcc, add_of (show _ + _length < 2 ^ 256 by omega),
    add_of (show _ + _start < 2 ^ 256 by omega), hcopy, ok_bind]
  dsimp only
  rw [hmc', add_of (show _ + 31 < 2 ^ 256 by omega), and_not_31 (by omega)]
  rfl

theorem slice_of_zero (h : Allocated m _bytes) (hfree : m.free < 2 ^ 64)
    (hlen : _start ≤ m.mload _bytes) : slice fuel m _bytes _start 0 =
      .ok (m.free, (m.mstore m.free 0).mstore 0x40 (m.free + 32)) := by
  have hle := h.le_free
  unfold slice
  rw [uadd_of (by norm_num), ok_bind, require_of (Nat.zero_le _), ok_bind, uadd_of (by omega),
    ok_bind, require_of (by omega), ok_bind, if_neg (by decide)]
  dsimp only
  rw [show m.mload 0x40 = m.free from rfl, add_of (by omega)]

/-- The bytes that were copied. -/
theorem read_copied (m : Memory) {mc cc n p q k : ℕ} (hp : mc ≤ p) (hk : p + k ≤ mc + n)
    (hq : q + mc = p + cc) : (copied m mc cc n).read p k = m.read q k := by
  obtain ⟨i, rfl⟩ := Nat.exists_eq_add_of_le hp
  refine read_congr fun j hj => ?_
  rw [Nat.add_assoc, copied_add m mc cc (by omega), show cc + (i + j) = q + j by omega]

/-- What a slice that is not empty leaves in memory. -/
theorem sliced_spec (h : Allocated m _bytes) (hfree : m.free < 2 ^ 64) (hpos : 0 < _length)
    (hlen : _start + _length ≤ m.mload _bytes) :
    (sliced m _bytes _start _length).bytes m.free = ((m.bytes _bytes).drop _start).take _length ∧
    (sliced m _bytes _start _length).free = 32 * ((m.free + 32 + _length + 31) / 32) ∧
    ∀ a < m.free, 0x60 ≤ a → sliced m _bytes _start _length a = m a := by
  have hlow := h.reserved_le
  have hle := h.le_free
  obtain ⟨hlead, hend⟩ := lead_add _length
  have hlength : (sliced m _bytes _start _length).mload m.free = _length := by
    rw [sliced, mload_mstore_of_disjoint _ (by omega), mload_mstore_self _ _ (by omega)]
  refine ⟨?_, ?_, fun a ha hlow => ?_⟩
  · rw [bytes, hlength, bytes, drop_read, take_read _ _ (by omega), sliced,
      read_mstore_of_disjoint _ (by omega), read_mstore_of_disjoint _ (by omega),
      read_copied m (q := _bytes + 32 + _start) (by omega) (by omega) (by omega)]
  · rw [Memory.free, sliced, mload_mstore_self _ _ (by omega)]
  · rw [sliced, mstore_of_disjoint _ (by omega), mstore_of_disjoint _ (by omega),
      copied_of_disjoint m (by omega)]

theorem slice_ok (h : Allocated m _bytes) (hfree : m.free < 2 ^ 64) (hfuel : _length ≤ fuel)
    (hlen : _start + _length ≤ m.mload _bytes) : ∃ m',
      slice fuel m _bytes _start _length = .ok (m.free, m') ∧
      m'.bytes m.free = ((m.bytes _bytes).drop _start).take _length ∧
      Allocated m' m.free ∧ (m.free % 32 = 0 → m'.free % 32 = 0) ∧
      ∀ q, Allocated m q → Allocated m' q ∧ m'.bytes q = m.bytes q := by
  have hlow := h.reserved_le
  have hle := h.le_free
  rcases Nat.eq_zero_or_pos _length with rfl | hpos
  · have hm : ∀ a < m.free, 0x60 ≤ a →
        (m.mstore m.free 0).mstore 0x40 (m.free + 32) a = m a := fun a ha hlow => by
      rw [mstore_of_disjoint _ (by omega), mstore_of_disjoint _ (by omega)]
    have hlength : ((m.mstore m.free 0).mstore 0x40 (m.free + 32)).mload m.free = 0 := by
      rw [mload_mstore_of_disjoint _ (by omega), mload_mstore_self _ _ (by norm_num)]
    have hnew : ((m.mstore m.free 0).mstore 0x40 (m.free + 32)).free = m.free + 32 := by
      rw [Memory.free, mload_mstore_self _ _ (by omega)]
    refine ⟨_, slice_of_zero h hfree (by omega), ?_, ⟨by omega, ?_⟩, fun h32 => ?_, fun q hq => ?_⟩
    · rw [bytes, hlength, read_zero, List.take_zero]
    · rw [hlength, hnew]
    · rw [hnew]
      omega
    · exact hq.of_frame hm (by omega)
  · obtain ⟨hbytes, hnew, hm⟩ := sliced_spec h hfree hpos hlen
    have hlength : (sliced m _bytes _start _length).mload m.free = _length := by
      rw [← length_bytes, hbytes, List.length_take, List.length_drop, length_bytes]
      omega
    refine ⟨_, slice_of_pos h hfree hpos hlen hfuel, hbytes, ⟨by omega, ?_⟩, fun _ => ?_,
      fun q hq => ?_⟩
    · rw [hlength, hnew]
      omega
    · rw [hnew, Nat.mul_mod_right]
    · exact hq.of_frame hm (by omega)

/-- A slice of a value in memory returns exactly if it ends within the value. It has the bytes of
the slice and is allocated behind the values that were there, which stay as they were. -/
theorem slice_exact (h : Allocated m _bytes) (hfree : m.free < 2 ^ 64) (hfuel : _length ≤ fuel) :
    ((∃ r, slice fuel m _bytes _start _length = .ok r) ↔ _start + _length ≤ m.mload _bytes) ∧
    ∀ r, slice fuel m _bytes _start _length = .ok r →
      r.1 = m.free ∧ r.2.bytes r.1 = ((m.bytes _bytes).drop _start).take _length ∧
      Allocated r.2 r.1 ∧ (m.free % 32 = 0 → r.2.free % 32 = 0) ∧
      ∀ q, Allocated m q → Allocated r.2 q ∧ r.2.bytes q = m.bytes q := by
  have hwithin : ∀ r, slice fuel m _bytes _start _length = .ok r →
      _start + _length ≤ m.mload _bytes := by
    intro r hr
    unfold slice at hr
    obtain ⟨n, -, hr⟩ := bind_eq_ok.1 hr
    obtain ⟨stop, hstop, hr⟩ := bind_eq_ok.1 (require_bind_eq_ok.1 hr).2
    have hle := (require_bind_eq_ok.1 hr).1
    rwa [(uadd_eq_ok.1 hstop).2] at hle
  refine ⟨⟨fun ⟨r, hr⟩ => hwithin r hr, fun hlen => ?_⟩, fun r hr => ?_⟩
  · obtain ⟨m', hm', -⟩ := slice_ok h hfree hfuel hlen
    exact ⟨_, hm'⟩
  · obtain ⟨m', hm', hspec⟩ := slice_ok h hfree hfuel (hwithin r hr)
    rw [hr] at hm'
    cases hm'
    exact ⟨rfl, hspec⟩

/-- A memory with 50 bytes at `0x80`. -/
def sampleMemory : Memory :=
  (mstore (fun a => lastByte (7 * a)) 0x40 0x100).mstore 0x80 50

/-- 33 of the 50 bytes, from the third on. -/
theorem slice_exact_run : ∃ r, slice 33 sampleMemory 0x80 3 33 = .ok r ∧ r.1 = 0x100 ∧
    r.2.bytes r.1 = ((sampleMemory.bytes 0x80).drop 3).take 33 := by
  have halloc : Allocated sampleMemory 0x80 := ⟨by decide, by decide +kernel⟩
  obtain ⟨hreturns, hspec⟩ := @slice_exact sampleMemory 0x80 3 33 33 halloc (by decide +kernel)
    le_rfl
  obtain ⟨r, hr⟩ := hreturns.2 (by decide +kernel)
  have hfree : sampleMemory.free = 0x100 := by decide +kernel
  exact ⟨r, hr, (hspec r hr).1.trans hfree, (hspec r hr).2.1⟩

end Aura.BytesLib
