import Aura.Evm.Abi
import Aura.Evm.Loop
import Mathlib.Data.List.Induction

/-!
# Memory

The memory of a call, byte by byte, and what inline assembly does with it : words are loaded
and stored at any address, and addresses are computed modulo `2 ^ 256`.

`copyWords` is the loop that copies word by word. While the source ends before the destination
starts, it copies the bytes of whole words and changes no other byte (`copyWords_eq`).
-/

namespace Evm

open Abi

abbrev Memory := ℕ → Byte

namespace Memory

/-- `n` bytes from `p`. -/
def read (m : Memory) (p n : ℕ) : List Byte :=
  (List.range n).map fun i => m (p + i)

/-- Some bytes stored from `p`. -/
def write (m : Memory) (p : ℕ) (bs : List Byte) : Memory :=
  fun a => if p ≤ a then bs[a - p]?.getD (m a) else m a

def mload (m : Memory) (p : ℕ) : ℕ :=
  toNat (m.read p 32)

def mstore (m : Memory) (p w : ℕ) : Memory :=
  m.write p (bytesOf 32 w)

variable {m : Memory} {p q n k a w : ℕ} {bs : List Byte}

@[simp] theorem length_read (m : Memory) (p n : ℕ) : (m.read p n).length = n := by
  rw [read, List.length_map, List.length_range]

@[simp] theorem read_zero (m : Memory) (p : ℕ) : m.read p 0 = [] :=
  rfl

theorem getElem?_read (m : Memory) (p : ℕ) {n i : ℕ} (h : i < n) :
    (m.read p n)[i]? = some (m (p + i)) := by
  rw [read, List.getElem?_map, List.getElem?_range h]
  rfl

/-- Memories that agree on some bytes. -/
theorem read_congr {m' : Memory} {q : ℕ} (h : ∀ i < n, m (p + i) = m' (q + i)) :
    m.read p n = m'.read q n :=
  List.map_congr_left fun i hi => h i (List.mem_range.1 hi)

theorem drop_read (m : Memory) (p n k : ℕ) : (m.read p n).drop k = m.read (p + k) (n - k) := by
  refine List.ext_getElem? fun i => ?_
  rw [List.getElem?_drop]
  rcases Nat.lt_or_ge i (n - k) with hi | hi
  · rw [getElem?_read m p (by omega), getElem?_read m (p + k) hi, Nat.add_assoc]
  · rw [List.getElem?_eq_none (by simp; omega), List.getElem?_eq_none (by simpa using hi)]

theorem take_read (m : Memory) (p : ℕ) (h : k ≤ n) : (m.read p n).take k = m.read p k := by
  refine List.ext_getElem? fun i => ?_
  rcases Nat.lt_or_ge i k with hi | hi
  · rw [List.getElem?_take_of_lt hi, getElem?_read m p (by omega), getElem?_read m p hi]
  · rw [List.getElem?_eq_none (by simp; omega), List.getElem?_eq_none (by simpa using hi)]

theorem write_of_lt (m : Memory) (bs : List Byte) (h : a < p) : m.write p bs a = m a :=
  if_neg (not_le.2 h)

theorem write_of_ge (m : Memory) (h : p + bs.length ≤ a) : m.write p bs a = m a := by
  unfold write
  rw [if_pos (by omega), List.getElem?_eq_none (by omega)]
  rfl

theorem write_add (m : Memory) (p : ℕ) {i : ℕ} (h : i < bs.length) :
    m.write p bs (p + i) = bs[i] := by
  unfold write
  rw [if_pos (Nat.le_add_right p i), Nat.add_sub_cancel_left, List.getElem?_eq_getElem h]
  rfl

/-- What is read where it was written. -/
theorem read_write_self (m : Memory) (p : ℕ) (bs : List Byte) :
    (m.write p bs).read p bs.length = bs := by
  refine List.ext_getElem? fun i => ?_
  rcases Nat.lt_or_ge i bs.length with hi | hi
  · rw [getElem?_read _ _ hi, write_add m p hi, List.getElem?_eq_getElem hi]
  · rw [List.getElem?_eq_none (by simpa using hi), List.getElem?_eq_none hi]

/-- What is read elsewhere. -/
theorem read_write_of_disjoint (m : Memory) (h : q + n ≤ p ∨ p + bs.length ≤ q) :
    (m.write p bs).read q n = m.read q n := by
  refine read_congr fun i hi => ?_
  rcases h with h | h
  · exact write_of_lt m bs (by omega)
  · exact write_of_ge m (by omega)

/-! ## Words -/

theorem toNat_concat (bs : List Byte) (b : Byte) : toNat (bs ++ [b]) = toNat bs * 256 + b.val := by
  rw [Abi.toNat, List.foldl_append]
  rfl

/-- The digits of the number with some digits. -/
theorem bytesOf_toNat (bs : List Byte) : bytesOf bs.length (toNat bs) = bs := by
  induction bs using List.reverseRecOn with
  | nil => rfl
  | append_singleton bs b ih =>
    have hdiv : (toNat bs * 256 + b.val) / 256 = toNat bs := by omega
    have hlast : lastByte (toNat bs * 256 + b.val) = b := Fin.ext (by simp only [lastByte]; omega)
    rw [List.length_append, List.length_singleton, toNat_concat, bytesOf_succ, hdiv, ih, hlast]

/-- A word that is stored where another was loaded. -/
theorem mstore_mload (m m' : Memory) (p q : ℕ) :
    m.mstore q (m'.mload p) = m.write q (m'.read p 32) := by
  have h := bytesOf_toNat (m'.read p 32)
  rw [length_read] at h
  rw [mstore, mload, h]

/-- A word that was stored. -/
theorem mload_mstore_self (m : Memory) (p : ℕ) (h : w < 2 ^ 256) : (m.mstore p w).mload p = w := by
  have hread := read_write_self m p (bytesOf 32 w)
  rw [length_bytesOf] at hread
  rw [mload, mstore, hread, toNat_bytesOf]
  exact Nat.mod_eq_of_lt (by norm_num at h ⊢; exact h)

theorem mload_mstore_of_disjoint (m : Memory) (h : q + 32 ≤ p ∨ p + 32 ≤ q) :
    (m.mstore p w).mload q = m.mload q := by
  rw [mload, mstore, read_write_of_disjoint m (by rwa [length_bytesOf]), ← mload]

theorem read_mstore_of_disjoint (m : Memory) (h : q + n ≤ p ∨ p + 32 ≤ q) :
    (m.mstore p w).read q n = m.read q n :=
  read_write_of_disjoint m (by rwa [length_bytesOf])

theorem mstore_of_disjoint (m : Memory) (h : a < p ∨ p + 32 ≤ a) : m.mstore p w a = m a := by
  rcases h with h | h
  · exact write_of_lt m _ h
  · exact write_of_ge m (by rwa [length_bytesOf])

/-! ## Values -/

/-- The `bytes` value at an address. -/
def bytes (m : Memory) (p : ℕ) : List Byte :=
  m.read (p + 32) (m.mload p)

/-- The free memory pointer. -/
def free (m : Memory) : ℕ :=
  m.mload 0x40

/-- A `bytes` value lies between the reserved addresses and the free memory. -/
structure Allocated (m : Memory) (p : ℕ) : Prop where
  reserved_le : 0x60 ≤ p
  le_free : p + 32 + m.mload p ≤ m.free

@[simp] theorem length_bytes (m : Memory) (p : ℕ) : (m.bytes p).length = m.mload p :=
  length_read m _ _

/-- Whatever changes no byte below the free memory, but for the pointer to it, keeps the values
that are allocated. -/
theorem Allocated.of_frame {m' : Memory} (h : Allocated m p)
    (hframe : ∀ a, a < m.free → 0x60 ≤ a → m' a = m a) (hle : m.free ≤ m'.free) :
    Allocated m' p ∧ m'.bytes p = m.bytes p := by
  have hlow := h.reserved_le
  have hhigh := h.le_free
  have hlen : m'.mload p = m.mload p :=
    congrArg toNat (read_congr fun i hi => hframe (p + i) (by omega) (by omega))
  refine ⟨⟨hlow, ?_⟩, ?_⟩
  · rw [hlen]
    exact hhigh.trans hle
  · rw [bytes, bytes, hlen]
    exact read_congr fun i hi => hframe _ (by omega) (by omega)

/-- A `bytes` value is copied to the free memory, which moves on by whole words. -/
def load (m : Memory) (bs : List Byte) : ℕ × Memory :=
  (m.free, (m.write m.free (encodeBytes bs)).mstore 0x40 (m.free + (encodeBytes bs).length))

/-- What is copied is there, and no value changes. -/
theorem load_spec (hlow : 0x60 ≤ m.free) (hhigh : m.free + bs.length < 2 ^ 64 - 64) :
    (m.load bs).2.bytes (m.load bs).1 = bs ∧ Allocated (m.load bs).2 (m.load bs).1 ∧
      (m.load bs).2.free < 2 ^ 64 ∧
      ∀ q, Allocated m q → Allocated (m.load bs).2 q ∧ (m.load bs).2.bytes q = m.bytes q := by
  have hsplit : encodeBytes bs = bytesOf 32 bs.length ++ padRight bs := by
    rw [encodeBytes, words_cons]
    simp [words]
  have hpad : (padRight bs).length = bs.length + (32 - bs.length % 32) % 32 := by
    rw [padRight, List.length_append, List.length_replicate]
  have hlen : (encodeBytes bs).length = 32 + (padRight bs).length := by
    rw [hsplit, List.length_append, length_bytesOf]
  unfold load
  dsimp only
  set m' := (m.write m.free (encodeBytes bs)).mstore 0x40 (m.free + (encodeBytes bs).length)
    with hm'
  have hnew : m'.free = m.free + (encodeBytes bs).length := mload_mstore_self _ _ (by omega)
  have hread : m'.read m.free (encodeBytes bs).length = encodeBytes bs := by
    rw [hm', read_mstore_of_disjoint _ (by omega), read_write_self]
  have hmload : m'.mload m.free = bs.length := by
    have htake := take_read m' m.free (show 32 ≤ (encodeBytes bs).length by omega)
    rw [hread, hsplit, List.take_left' (length_bytesOf 32 _)] at htake
    rw [mload, ← htake, toNat_bytesOf]
    exact Nat.mod_eq_of_lt (by omega)
  refine ⟨?_, ⟨hlow, by omega⟩, by omega, fun q hq => hq.of_frame (fun a ha h60 => ?_) (by omega)⟩
  · have hdrop := drop_read m' m.free (encodeBytes bs).length 32
    rw [hread, hsplit, List.drop_left' (length_bytesOf 32 _), ← hsplit, hlen,
      Nat.add_sub_cancel_left] at hdrop
    have hpadded : bs.length ≤ (padRight bs).length := by omega
    rw [bytes, hmload, ← take_read m' (m.free + 32) hpadded, ← hdrop, padRight, List.take_left]
  · rw [hm', mstore_of_disjoint _ (by omega), write_of_lt _ _ ha]

/-! ## Assembly -/

/-- `add`. -/
def add (a b : ℕ) : ℕ :=
  (a + b) % 2 ^ 256

theorem add_of (h : p + q < 2 ^ 256) : add p q = p + q :=
  Nat.mod_eq_of_lt h

/-- `mul`. -/
def mul (a b : ℕ) : ℕ :=
  a * b % 2 ^ 256

/-- `iszero`. -/
def iszero (a : ℕ) : ℕ :=
  if a = 0 then 1 else 0

/-- `not`. -/
def not (a : ℕ) : ℕ :=
  2 ^ 256 - 1 - a

/-- Rounding down to whole words. -/
theorem and_not_31 (h : a < 2 ^ 256) : a &&& not 31 = 32 * (a / 32) := by
  have hmask : not 31 = 32 * (2 ^ 251 - 1) := by decide
  have hlt : a / 32 < 2 ^ 251 := by omega
  rw [hmask]
  refine Nat.eq_of_testBit_eq fun i => ?_
  have hmul : ∀ k, 32 * k = 2 ^ 5 * k := fun k => rfl
  rw [Nat.testBit_and, hmul, hmul, Nat.testBit_two_pow_mul, Nat.testBit_two_pow_mul,
    Nat.testBit_two_pow_sub_one]
  have hdiv : (a / 32).testBit (i - 5) = a.testBit (i - 5 + 5) := by
    rw [show (32 : ℕ) = 2 ^ 5 from rfl, Nat.testBit_div_two_pow]
  rcases Nat.lt_or_ge i 5 with hi | hi
  · simp [Nat.not_le.2 hi]
  · rw [hdiv, Nat.sub_add_cancel hi]
    rcases Nat.lt_or_ge (i - 5) 251 with hj | hj
    · simp [hi, hj]
    · have hbit : a.testBit i = false :=
        Nat.testBit_lt_two_pow (h.trans_le (Nat.pow_le_pow_right (by norm_num) (by omega)))
      simp [hbit]

/-- `and(a, 31)`. -/
theorem and_31 (a : ℕ) : a &&& 31 = a % 32 :=
  Nat.and_two_pow_sub_one_eq_mod a 5

/-! ## Copying words -/

/-- The state of a loop that copies from `cc` to `mc`. -/
structure Copy where
  mc : ℕ
  cc : ℕ
  memory : Memory

/-- `for {} lt(mc, end) { mc := add(mc, 0x20) cc := add(cc, 0x20) } { mstore(mc, mload(cc)) }`. -/
def copyWords (fuel stop : ℕ) (c : Copy) : Tx Copy :=
  loop fuel (fun c => decide (c.mc < stop))
    (fun c => .ok ⟨add c.mc 0x20, add c.cc 0x20, c.memory.mstore c.mc (c.memory.mload c.cc)⟩) c

/-- Some words of the source have been copied. -/
def copied (m : Memory) (mc cc n : ℕ) : Memory :=
  m.write mc (m.read cc n)

/-- A copy shifts addresses. -/
theorem copied_add (m : Memory) (mc cc : ℕ) {n i : ℕ} (h : i < n) :
    copied m mc cc n (mc + i) = m (cc + i) := by
  have hlen : i < (m.read cc n).length := by rwa [length_read]
  rw [copied, write_add m mc hlen]
  exact Option.some.inj ((List.getElem?_eq_getElem hlen).symm.trans (getElem?_read m cc h))

theorem copied_of_disjoint (m : Memory) {mc cc n : ℕ} (h : a < mc ∨ mc + n ≤ a) :
    copied m mc cc n a = m a := by
  rcases h with h | h
  · exact write_of_lt m _ h
  · exact write_of_ge m (by rwa [length_read])

/-- One more word. The source is not written over. -/
theorem copied_succ (m : Memory) {mc cc n : ℕ} (h : cc + n + 32 ≤ mc) :
    (copied m mc cc n).mstore (mc + n) ((copied m mc cc n).mload (cc + n)) =
      copied m mc cc (n + 32) := by
  rw [mstore_mload]
  have hsource : (copied m mc cc n).read (cc + n) 32 = m.read (cc + n) 32 :=
    read_congr fun i hi => copied_of_disjoint m (Or.inl (by omega))
  rw [hsource]
  funext a
  rcases Nat.lt_or_ge a (mc + n) with ha | ha
  · rw [write_of_lt _ _ ha]
    rcases Nat.lt_or_ge a mc with hb | hb
    · rw [copied_of_disjoint m (Or.inl hb), copied_of_disjoint m (Or.inl hb)]
    · obtain ⟨i, rfl⟩ := Nat.exists_eq_add_of_le hb
      rw [copied_add m mc cc (by omega), copied_add m mc cc (by omega)]
  · obtain ⟨i, rfl⟩ := Nat.exists_eq_add_of_le ha
    rcases Nat.lt_or_ge i 32 with hi | hi
    · have hlen : i < (m.read (cc + n) 32).length := by rwa [length_read]
      have hread := (List.getElem?_eq_getElem hlen).symm.trans (getElem?_read m (cc + n) hi)
      rw [write_add _ _ hlen, Option.some.inj hread, Nat.add_assoc, Nat.add_assoc,
        copied_add m mc cc (by omega)]
    · rw [write_of_ge _ (by rw [length_read]; omega), copied_of_disjoint m (Or.inr (by omega)),
        copied_of_disjoint m (Or.inr (by omega))]

/-- The loop from where some words have been copied to the end of the last one. -/
theorem copyWords_eq (m : Memory) {mc cc stop fuel : ℕ} :
    ∀ {k n : ℕ}, k ≤ fuel → mc + n + 32 * k < 2 ^ 256 → cc + n + 32 * k ≤ mc →
      stop ≤ mc + n + 32 * k → mc + n + 32 * k < stop + 32 →
      copyWords fuel stop ⟨mc + n, cc + n, copied m mc cc n⟩ =
        .ok ⟨mc + n + 32 * k, cc + n + 32 * k, copied m mc cc (n + 32 * k)⟩
  | 0, n, _, _, _, hstop, _ => by
    exact loop_of_not fuel (by simpa using hstop)
  | k + 1, n, hfuel, hfit, hcc, hstop, hlast => by
    obtain ⟨fuel, rfl⟩ : ∃ f, fuel = f + 1 := ⟨fuel - 1, by omega⟩
    have ih := @copyWords_eq m mc cc stop fuel k (n + 32) (by omega) (by omega) (by omega)
      (by omega) (by omega)
    have hmc : add (mc + n) 0x20 = mc + (n + 32) := add_of (by omega)
    have hcc' : add (cc + n) 0x20 = cc + (n + 32) := add_of (by omega)
    unfold copyWords at ih ⊢
    rw [loop_succ fuel (by simpa using (show mc + n < stop by omega)), ok_bind]
    dsimp only
    rw [hmc, hcc', copied_succ m (by omega), ih]
    simp only [Nat.mul_succ, Nat.add_assoc, Nat.add_comm 32]

end Memory

end Evm
