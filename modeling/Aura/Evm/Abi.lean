import Aura.Evm.Loop

/-!
# The contract ABI

Bytes and words, big-endian, as `abi.encode` writes and `abi.decode` reads them. Static values
take a word each (`words`); a `bytes` value is an offset in its place, with its length and its
padded contents behind the words (`encodeBytes`). The decoders check what Solidity's second ABI
coder checks.

A load from memory, `mload`, checks nothing. What it reads beyond the end of a value depends on
the rest of memory, which is a parameter.
-/

namespace Evm.Abi

abbrev Byte := Fin 256

/-! ## Digits -/

/-- The last digit of a number, in base 256. -/
def lastByte (n : ℕ) : Byte :=
  ⟨n % 256, Nat.mod_lt n (Nat.zero_lt_succ 255)⟩

/-- The `k` last digits of a number, in base 256. -/
def bytesOf (k n : ℕ) : List Byte :=
  (List.range k).map fun i => lastByte (n / 256 ^ (k - 1 - i))

/-- The number with some digits. -/
def toNat (bs : List Byte) : ℕ :=
  bs.foldl (fun n b => n * 256 + b.val) 0

@[simp] theorem length_bytesOf (k n : ℕ) : (bytesOf k n).length = k := by
  rw [bytesOf, List.length_map, List.length_range]

/-- The digits of a number but the last are those of `n / 256`. -/
theorem bytesOf_succ (k n : ℕ) :
    bytesOf (k + 1) n = bytesOf k (n / 256) ++ [lastByte n] := by
  have hmap : ((List.range k).map fun i => lastByte (n / 256 ^ (k - i))) =
      bytesOf k (n / 256) := by
    refine List.map_congr_left fun i hi => ?_
    have hi := List.mem_range.1 hi
    rw [Nat.div_div_eq_div_mul, ← pow_succ', show k - 1 - i + 1 = k - i by omega]
  rw [bytesOf, List.range_succ, List.map_append, List.map_singleton, Nat.add_sub_cancel, hmap,
    Nat.sub_self, pow_zero, Nat.div_one]

theorem toNat_bytesOf (k n : ℕ) : toNat (bytesOf k n) = n % 256 ^ k := by
  induction k generalizing n with
  | zero => rw [pow_zero, Nat.mod_one]; rfl
  | succ k ih =>
    have ih : (bytesOf k (n / 256)).foldl (fun n b => n * 256 + b.val) 0 = n / 256 % 256 ^ k := ih _
    rw [bytesOf_succ, toNat, List.foldl_append, ih, List.foldl_cons, List.foldl_nil, pow_succ',
      Nat.mod_mul]
    show n / 256 % 256 ^ k * 256 + n % 256 = _
    omega

/-! ## Words -/

/-- Words one after the other. -/
def words (ns : List ℕ) : List Byte :=
  ns.flatMap (bytesOf 32)

/-- The word at an offset. -/
def wordAt (data : List Byte) (off : ℕ) : ℕ :=
  toNat ((data.drop off).take 32)

@[simp] theorem words_cons (n : ℕ) (ns : List ℕ) : words (n :: ns) = bytesOf 32 n ++ words ns :=
  rfl

theorem words_append (ns ms : List ℕ) : words (ns ++ ms) = words ns ++ words ms :=
  List.flatMap_append

@[simp] theorem length_words (ns : List ℕ) : (words ns).length = 32 * ns.length := by
  induction ns with
  | nil => rfl
  | cons n ns ih =>
    rw [words_cons, List.length_append, length_bytesOf, ih, List.length_cons]
    omega

theorem wordAt_bytesOf_append (n : ℕ) (data : List Byte) :
    wordAt (bytesOf 32 n ++ data) 0 = n % 2 ^ 256 := by
  rw [wordAt, List.drop_zero, List.take_left' (length_bytesOf 32 n), toNat_bytesOf]
  norm_num

theorem wordAt_append (xs data : List Byte) (off : ℕ) :
    wordAt (xs ++ data) (xs.length + off) = wordAt data off := by
  rw [wordAt, List.drop_length_add_append]
  rfl

variable {ns : List ℕ} {data : List Byte} {i n w : ℕ}

/-- A word of what starts with words. -/
theorem wordAt_of_words (h : words ns <+: data) (hi : ns[i]? = some n) :
    wordAt data (32 * i) = n % 2 ^ 256 := by
  obtain ⟨rest, rfl⟩ := h
  induction ns generalizing i with
  | nil => cases hi
  | cons m ns ih =>
    rw [words_cons, List.append_assoc]
    cases i with
    | zero =>
      obtain rfl : m = n := Option.some.inj hi
      exact wordAt_bytesOf_append m _
    | succ i =>
      have hoff : 32 * (i + 1) = (bytesOf 32 m).length + 32 * i := by
        rw [length_bytesOf, Nat.mul_succ, Nat.add_comm]
      rw [hoff, wordAt_append]
      exact ih hi

/-- A word that was a number of `w` bits. -/
theorem wordAt_of_lt (h : words ns <+: data) (hi : ns[i]? = some n) (hn : n < 2 ^ w)
    (hw : w ≤ 256) : wordAt data (32 * i) = n := by
  rw [wordAt_of_words h hi]
  exact Nat.mod_eq_of_lt (hn.trans_le (Nat.pow_le_pow_right (by norm_num) hw))

theorem length_le_of_words (h : words ns <+: data) (hi : ns[i]? = some n) :
    32 * i + 32 ≤ data.length := by
  have hlt : i < ns.length := (List.getElem?_eq_some_iff.1 hi).1
  have hle := h.length_le
  rw [length_words] at hle
  omega

/-! ## Loads -/

/-- `mload` at an offset of a value that is in memory, with the bytes `beyond` behind it. -/
def mload (beyond : ℕ → Byte) (data : List Byte) (off : ℕ) : ℕ :=
  wordAt (data ++ (List.range (off + 32)).map beyond) off

/-- A load does not see what is behind a value that it stays in. -/
theorem mload_of_le (beyond : ℕ → Byte) {data : List Byte} {off : ℕ} (h : off + 32 ≤ data.length) :
    mload beyond data off = wordAt data off := by
  have hle : 32 ≤ (data.drop off).length := by
    rw [List.length_drop]
    omega
  rw [mload, wordAt, wordAt, List.drop_append_of_le_length (by omega),
    List.take_append_of_le_length hle]

/-- A load of a word that was a number of `w` bits. -/
theorem mload_of_words (beyond : ℕ → Byte) (h : words ns <+: data) (hi : ns[i]? = some n)
    (hn : n < 2 ^ w) (hw : w ≤ 256) : mload beyond data (32 * i) = n := by
  rw [mload_of_le beyond (length_le_of_words h hi), wordAt_of_lt h hi hn hw]

/-! ## Static values -/

/-- A `bytes4` as a word : it is at the start of the word. -/
def bytes4 (v : ℕ) : ℕ :=
  v * 2 ^ 224

/-- A `bytes4` at an offset, which has to be clean. -/
def bytes4At (data : List Byte) (off : ℕ) : Tx ℕ := do
  require (wordAt data off % 2 ^ 224 = 0) ""
  .ok (wordAt data off / 2 ^ 224)

/-- An unsigned integer of `w` bits at an offset. -/
def uintAt (w : ℕ) (data : List Byte) (off : ℕ) : Tx ℕ := do
  require (wordAt data off < 2 ^ w) ""
  .ok (wordAt data off)

theorem uintAt_of_words (h : words ns <+: data) (hi : ns[i]? = some n) (hn : n < 2 ^ w)
    (hw : w ≤ 256) : uintAt w data (32 * i) = .ok n := by
  unfold uintAt
  rw [wordAt_of_lt h hi hn hw, require_of hn, ok_bind]

theorem bytes4_lt {v : ℕ} (h : v < 2 ^ 32) : bytes4 v < 2 ^ 256 := by
  unfold bytes4
  omega

theorem bytes4At_of_words {v : ℕ} (h : words ns <+: data) (hi : ns[i]? = some (bytes4 v))
    (hv : v < 2 ^ 32) : bytes4At data (32 * i) = .ok v := by
  unfold bytes4At
  rw [wordAt_of_lt h hi (bytes4_lt hv) le_rfl, bytes4, Nat.mul_mod_left, require_of rfl, ok_bind,
    Nat.mul_div_cancel _ (by norm_num)]

/-! ## Bytes -/

/-- Zeros up to a whole number of words. -/
def padRight (bs : List Byte) : List Byte :=
  bs ++ List.replicate ((32 - bs.length % 32) % 32) (lastByte 0)

/-- The length and the contents of a `bytes` value. -/
def encodeBytes (bs : List Byte) : List Byte :=
  words [bs.length] ++ padRight bs

/-- A `bytes` value at an offset. -/
def bytesAt (data : List Byte) (off : ℕ) : Tx (List Byte) := do
  require (off < 2 ^ 64) ""
  require (off + 31 < data.length) ""
  let length := wordAt data off
  allocate length
  require (off + 32 + length ≤ data.length) ""
  .ok ((data.drop (off + 32)).take length)
where
  /-- Memory for `n` bytes. -/
  allocate (n : ℕ) : Tx Unit :=
    if n < 2 ^ 64 then .ok () else .error .outOfMemory

/-- A `bytes` value behind some words is read back. -/
theorem bytesAt_words {bs : List Byte} (ns : List ℕ) (hlen : bs.length < 2 ^ 64)
    (hns : 32 * ns.length < 2 ^ 64) :
    bytesAt (words ns ++ encodeBytes bs) (32 * ns.length) = .ok bs := by
  have hdata : words ns ++ encodeBytes bs = words (ns ++ [bs.length]) ++ padRight bs := by
    rw [words_append, encodeBytes, List.append_assoc]
  have hword : wordAt (words ns ++ encodeBytes bs) (32 * ns.length) = bs.length := by
    rw [hdata]
    exact wordAt_of_lt (List.prefix_append _ _) List.getElem?_concat_length hlen (by norm_num)
  have hle : 32 * ns.length + 32 + bs.length ≤ (words ns ++ encodeBytes bs).length := by
    rw [encodeBytes, padRight]
    simp only [List.length_append, length_words, List.length_singleton]
    omega
  have hdrop : (words ns ++ encodeBytes bs).drop (32 * ns.length + 32) = padRight bs := by
    rw [hdata]
    refine List.drop_left' ?_
    rw [length_words, List.length_append, List.length_singleton, Nat.mul_succ]
  unfold bytesAt
  dsimp only
  rw [require_of hns, ok_bind, require_of (by omega), ok_bind, hword, bytesAt.allocate, if_pos hlen,
    ok_bind, require_of hle, ok_bind, hdrop, padRight, List.take_left']
  rfl

/-! ## Arrays -/

/-- The length and the elements of an array of unsigned integers. -/
def encodeArray (ns : List ℕ) : List Byte :=
  words (ns.length :: ns)

/-- An array of unsigned integers of `w` bits at an offset. -/
def arrayAt (w : ℕ) (data : List Byte) (off : ℕ) : Tx (List ℕ) := do
  require (off < 2 ^ 64) ""
  require (off + 31 < data.length) ""
  let length := wordAt data off
  bytesAt.allocate (32 * length)
  require (off + 32 + 32 * length ≤ data.length) ""
  (List.range length).mapM fun i => uintAt w data (off + 32 + 32 * i)

/-- An array behind some words is read back. -/
theorem arrayAt_words {xs : List ℕ} (ns : List ℕ) (hlen : 32 * xs.length < 2 ^ 64)
    (hns : 32 * ns.length < 2 ^ 64) (hw : w ≤ 256) (hxs : ∀ x ∈ xs, x < 2 ^ w) :
    arrayAt w (words ns ++ encodeArray xs) (32 * ns.length) = .ok xs := by
  have hdata : words ns ++ encodeArray xs = words (ns ++ xs.length :: xs) := by
    rw [words_append, encodeArray]
  have hword : wordAt (words (ns ++ xs.length :: xs)) (32 * ns.length) = xs.length :=
    wordAt_of_lt (w := 64) List.prefix_rfl (by simp) (by omega) (by norm_num)
  have hend : (words (ns ++ xs.length :: xs)).length = 32 * ns.length + 32 + 32 * xs.length := by
    rw [length_words, List.length_append, List.length_cons]
    omega
  have helem : ∀ i ∈ List.range xs.length,
      uintAt w (words (ns ++ xs.length :: xs)) (32 * ns.length + 32 + 32 * i) =
        .ok (xs[i]?.getD 0) := by
    intro i hi
    have hi := List.mem_range.1 hi
    have hget : (ns ++ xs.length :: xs)[ns.length + 1 + i]? = some xs[i] := by
      rw [List.getElem?_append_right (by omega)]
      simp [show ns.length + 1 + i - ns.length = i + 1 by omega, hi]
    rw [List.getElem?_eq_getElem hi, show 32 * ns.length + 32 + 32 * i = 32 * (ns.length + 1 + i) by
      omega]
    exact uintAt_of_words List.prefix_rfl hget (hxs _ (List.getElem_mem hi)) hw
  have hmap : (List.range xs.length).map (fun i => xs[i]?.getD 0) = xs := by
    refine List.ext_getElem? fun i => ?_
    rcases Nat.lt_or_ge i xs.length with hi | hi
    · rw [List.getElem?_map, List.getElem?_range hi, Option.map_some, List.getElem?_eq_getElem hi]
      rfl
    · rw [List.getElem?_eq_none (by simpa using hi), List.getElem?_eq_none hi]
  rw [hdata]
  unfold arrayAt
  dsimp only
  rw [require_of hns, ok_bind, require_of (by omega), ok_bind, hword, bytesAt.allocate, if_pos hlen,
    ok_bind, require_of (by omega), ok_bind, mapM_of helem, hmap]

end Evm.Abi
