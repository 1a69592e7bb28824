import Mathlib.Data.List.Basic

/-!
# Merkle trees

The root of a tree hashes the leaves pair by pair. A proof is the list of the siblings on
the way up, and it is checked by hashing a leaf with one after the other
(`Hashing.verify`). The hash of a pair does not depend on the order of its two digests.

Without collisions, a proof for a leaf exists exactly if the tree has the leaf, whatever
digests the proof is made of (`mem_leaves`, `exists_verify`).
-/

/-- The hash of a leaf, and of a pair of digests. -/
structure Hashing (L D : Type) where
  leaf : L → D
  pair : D → D → D

/-- The hash of a pair ignores the order, and there are no collisions otherwise. -/
structure Hashing.CollisionFree {L D : Type} (H : Hashing L D) : Prop where
  pair_comm : ∀ a b, H.pair a b = H.pair b a
  leaf_inj : ∀ {x y}, H.leaf x = H.leaf y → x = y
  pair_inj : ∀ {a b c d}, H.pair a b = H.pair c d → a = c ∨ a = d
  leaf_ne_pair : ∀ x a b, H.leaf x ≠ H.pair a b

inductive MerkleTree (L : Type) where
  | leaf (x : L)
  | node (l r : MerkleTree L)

variable {L D : Type}

namespace MerkleTree

def root (H : Hashing L D) : MerkleTree L → D
  | leaf x => H.leaf x
  | node l r => H.pair (l.root H) (r.root H)

def leaves : MerkleTree L → List L
  | leaf x => [x]
  | node l r => l.leaves ++ r.leaves

end MerkleTree

namespace Hashing

variable [DecidableEq D]

/-- Whether the siblings `proof` lead from `leaf` to `root`. -/
def verify (H : Hashing L D) (proof : List D) (root leaf : D) : Bool :=
  decide (proof.foldl H.pair leaf = root)

theorem verify_eq_true {H : Hashing L D} {proof : List D} {root leaf : D} :
    H.verify proof root leaf = true ↔ proof.foldl H.pair leaf = root := by
  simp [verify]

variable {H : Hashing L D} (hH : H.CollisionFree)

include hH

/-- What a proof leads to the root of a tree is a leaf of the tree. -/
theorem CollisionFree.mem_leaves {x : L} :
    ∀ {t : MerkleTree L} {proof : List D}, H.verify proof (t.root H) (H.leaf x) = true →
      x ∈ t.leaves := by
  intro t
  induction t with
  | leaf y =>
    intro proof h
    rcases List.eq_nil_or_concat proof with rfl | ⟨ps, p, rfl⟩
    · exact List.mem_singleton.2 (hH.leaf_inj (verify_eq_true.1 h))
    · rw [verify_eq_true, List.concat_eq_append, List.foldl_append] at h
      exact absurd h.symm (hH.leaf_ne_pair y _ _)
  | node l r ihl ihr =>
    intro proof h
    rcases List.eq_nil_or_concat proof with rfl | ⟨ps, p, rfl⟩
    · exact absurd (verify_eq_true.1 h) (hH.leaf_ne_pair x _ _)
    · rw [verify_eq_true, List.concat_eq_append, List.foldl_append] at h
      rcases hH.pair_inj h with hl | hr
      · exact List.mem_append_left _ (ihl (verify_eq_true.2 hl))
      · exact List.mem_append_right _ (ihr (verify_eq_true.2 hr))

/-- Every leaf of a tree has a proof. -/
theorem CollisionFree.exists_verify {x : L} {t : MerkleTree L} (h : x ∈ t.leaves) :
    ∃ proof, H.verify proof (t.root H) (H.leaf x) = true := by
  induction t with
  | leaf y =>
    obtain rfl := List.mem_singleton.1 h
    exact ⟨[], verify_eq_true.2 rfl⟩
  | node l r ihl ihr =>
    rcases List.mem_append.1 h with h | h
    · obtain ⟨proof, hp⟩ := ihl h
      refine ⟨proof ++ [r.root H], verify_eq_true.2 ?_⟩
      rw [List.foldl_append, verify_eq_true.1 hp]
      rfl
    · obtain ⟨proof, hp⟩ := ihr h
      refine ⟨proof ++ [l.root H], verify_eq_true.2 ?_⟩
      rw [List.foldl_append, verify_eq_true.1 hp]
      exact hH.pair_comm _ _

end Hashing
