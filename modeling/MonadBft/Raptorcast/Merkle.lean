import MonadBft.Bytes
import MonadBft.HashTree

/-!
# Merkle trees over chunks

`monad-merkle`: a tree of hashes truncated to 20 bytes, of a given depth, stored in an
array. Leaves that are missing are all zero. `MerkleTree.newWithDepth` fills the array from
the leaves upwards, `MerkleTree.proof` lists the siblings from top to bottom, and
`MerkleProof.computeRoot` climbs back to the root.

`MerkleTree.Built` is what the loop makes of the leaves. With it, the proof of a leaf leads
from that leaf to the root (`Built.computeRoot_proof`). Two proofs with one leaf index and
one number of siblings that lead from different leaves to one root give two byte strings
with one truncated hash (`MerkleProof.eq_or_collision`), and so do a proof and a tree
(`Built.eq_or_collision`), unless the proof is of a missing leaf and its hash is zero.
-/

namespace MonadBft.Raptorcast

open HashTree List

/-- A full hash. -/
abbrev Hash := ByteArrayN 32

/-- The first 20 bytes of a hash. -/
abbrev MerkleHash := ByteArrayN 20

def hashToMerkle (hash : Hash) : MerkleHash := firstBytes 20 hash.toList

/-- The entry of a missing leaf. -/
def MerkleHash.default : MerkleHash := List.Vector.replicate 20 0

variable (hash : Bytes → Hash) {leafIdx : ℕ} {leaf : Hash}

def merkleHash (bs : Bytes) : MerkleHash := hashToMerkle (hash bs)

/-- The hash of two hashes, one after the other. -/
def nodeHash (l r : MerkleHash) : MerkleHash := merkleHash hash (l.toList ++ r.toList)

/-- Two byte strings with one truncated hash. -/
def HashCollision (x y : Bytes) : Prop := x ≠ y ∧ merkleHash hash x = merkleHash hash y

theorem hashCollision_of_isCollision {x y : MerkleHash × MerkleHash}
    (h : IsCollision (nodeHash hash) x y) :
    HashCollision hash (x.1.toList ++ x.2.toList) (y.1.toList ++ y.2.toList) := by
  refine ⟨fun heq => h.1 ?_, h.2⟩
  have hlen : x.1.toList.length = y.1.toList.length := by simp
  obtain ⟨h1, h2⟩ := append_inj heq hlen
  exact Prod.ext (Subtype.ext h1) (Subtype.ext h2)

/-! ## Proofs -/

structure MerkleProof where
  treeLeafIdx : ℕ
  /-- The siblings, from top to bottom. -/
  siblings : List MerkleHash
  deriving DecidableEq

def MAX_DEPTH : ℕ := 15

/-- A result of a computation in 16 bits. -/
def checkedU16 (n : ℕ) : Option ℕ := if n < 2 ^ 16 then some n else none

namespace MerkleProof

def newFromLeafIdx (siblings : List MerkleHash) (leafIdx : ℕ) : Option MerkleProof :=
  if MAX_DEPTH ≤ siblings.length then none
  else do
    let numLeaves ← checkedU16 (2 ^ siblings.length)
    let doubled ← checkedU16 (2 * numLeaves)
    let treeLen := doubled - 1
    let treeLeafStartIdx := treeLen - numLeaves
    if numLeaves ≤ leafIdx then none
    else some { treeLeafIdx := treeLeafStartIdx + leafIdx, siblings }

def computeRoot (proof : MerkleProof) (leaf : Hash) : Option MerkleHash :=
  climb (nodeHash hash) proof.siblings.reverse (some proof.treeLeafIdx) (hashToMerkle leaf)

/-- The leaves of a tree start right before the middle of the array. -/
theorem newFromLeafIdx_eq_some {siblings : List MerkleHash} {proof : MerkleProof} :
    newFromLeafIdx siblings leafIdx = some proof ↔
      siblings.length < MAX_DEPTH ∧ leafIdx < 2 ^ siblings.length ∧
        proof = ⟨2 ^ siblings.length - 1 + leafIdx, siblings⟩ := by
  unfold newFromLeafIdx
  split
  next h =>
    simp only [reduceCtorEq, false_iff, not_and]
    omega
  next h =>
    have hpow : 2 ^ siblings.length ≤ 2 ^ 14 :=
      Nat.pow_le_pow_right (by omega) (by unfold MAX_DEPTH at h; omega)
    have h1 : checkedU16 (2 ^ siblings.length) = some (2 ^ siblings.length) := if_pos (by omega)
    have h2 : checkedU16 (2 * 2 ^ siblings.length) = some (2 * 2 ^ siblings.length) :=
      if_pos (by omega)
    have hstart : 2 * 2 ^ siblings.length - 1 - 2 ^ siblings.length = 2 ^ siblings.length - 1 := by
      omega
    rw [h1, Option.bind_eq_bind, Option.bind_some, h2, Option.bind_some]
    dsimp only
    rw [hstart]
    split
    next hi =>
      simp only [reduceCtorEq, false_iff, not_and]
      omega
    next hi =>
      rw [Option.some.injEq]
      exact ⟨fun heq => ⟨by omega, by omega, heq.symm⟩, fun heq => heq.2.2.symm⟩

end MerkleProof

/-! ## Trees -/

structure MerkleTree where
  treeLeafStartIdx : ℕ
  tree : List MerkleHash
  deriving DecidableEq

namespace MerkleTree

def entry (tree : List MerkleHash) (i : ℕ) : MerkleHash := tree.getD i .default

/-- The loop over the inner entries, from the last to the first. -/
def fillInner : ℕ → List MerkleHash → List MerkleHash
  | 0, tree => tree
  | i + 1, tree =>
    fillInner i (tree.set i (nodeHash hash (entry tree (2 * i + 1)) (entry tree (2 * i + 2))))

def newWithDepth (leaves : List Hash) (depth : ℕ) : MerkleTree :=
  let numLeaves := 2 ^ (depth - 1)
  let treeLen := 2 * numLeaves - 1
  let treeLeafStartIdx := treeLen - numLeaves
  let tree := replicate treeLen MerkleHash.default
  let tree := writeAt tree treeLeafStartIdx ((leaves.map hashToMerkle).take numLeaves)
  { treeLeafStartIdx, tree := fillInner hash treeLeafStartIdx tree }

def root (t : MerkleTree) : MerkleHash := entry t.tree 0

def proof (t : MerkleTree) (leafIdx : ℕ) : MerkleProof :=
  let treeLeafIdx := t.treeLeafStartIdx + leafIdx
  { treeLeafIdx, siblings := (pathUp (entry t.tree) t.tree.length treeLeafIdx).reverse }

variable {hash} {tree : List MerkleHash} {n : ℕ}

@[simp] theorem length_fillInner (n : ℕ) (tree : List MerkleHash) :
    (fillInner hash n tree).length = tree.length := by
  induction n generalizing tree with
  | zero => rfl
  | succ n ih => simp [fillInner, ih]

theorem entry_set {i : ℕ} (h : MerkleHash) (hi : i < tree.length) (j : ℕ) :
    entry (tree.set i h) j = if j = i then h else entry tree j := by
  unfold entry
  by_cases hij : i = j
  · subst hij
    simp [hi]
  · simp [hij, Ne.symm hij, getD_eq_getElem?_getD]

/-- The loop leaves the entries it does not visit. -/
theorem entry_fillInner_of_le {j : ℕ} (hn : n ≤ tree.length) (hj : n ≤ j) :
    entry (fillInner hash n tree) j = entry tree j := by
  induction n generalizing tree with
  | zero => rfl
  | succ n ih =>
    rw [fillInner, ih (by simpa using Nat.le_of_succ_le hn) (by omega), entry_set _ (by omega),
      if_neg (by omega)]

/-- After the loop every entry it visited combines its children. -/
theorem isTree_fillInner (hn : n ≤ tree.length) :
    IsTree (nodeHash hash) n (entry (fillInner hash n tree)) := by
  induction n generalizing tree with
  | zero => exact fun i hi => absurd hi (Nat.not_lt_zero i)
  | succ n ih =>
    intro i hi
    rw [fillInner]
    set tree' := tree.set n (nodeHash hash (entry tree (2 * n + 1)) (entry tree (2 * n + 2)))
      with htree'
    have hlen : n ≤ tree'.length := by simpa [htree'] using Nat.le_of_succ_le hn
    rcases Nat.lt_succ_iff_lt_or_eq.mp hi with h | rfl
    · exact ih hlen i h
    -- the entry just set, whose children no later step visits
    rw [entry_fillInner_of_le hlen le_rfl, entry_fillInner_of_le hlen (by omega),
      entry_fillInner_of_le hlen (by omega), htree', entry_set _ (by omega),
      entry_set _ (by omega), entry_set _ (by omega), if_pos rfl, if_neg (by omega),
      if_neg (by omega)]

variable {leaves : List Hash} {depth : ℕ}

variable (hash) (leaves) (depth) in
/-- The entries of the array before the loop. -/
theorem newWithDepth_eq (hleaves : leaves.length ≤ 2 ^ (depth - 1)) :
    newWithDepth hash leaves depth =
      { treeLeafStartIdx := 2 ^ (depth - 1) - 1
        tree := fillInner hash (2 ^ (depth - 1) - 1)
          (replicate (2 ^ (depth - 1) - 1) .default ++ leaves.map hashToMerkle ++
            replicate (2 ^ (depth - 1) - leaves.length) .default) } := by
  have hstart : 2 * 2 ^ (depth - 1) - 1 - 2 ^ (depth - 1) = 2 ^ (depth - 1) - 1 := by omega
  have hrep : replicate (2 * 2 ^ (depth - 1) - 1) MerkleHash.default =
      replicate (2 ^ (depth - 1) - 1) .default ++ replicate leaves.length .default ++
        replicate (2 ^ (depth - 1) - leaves.length) .default := by
    rw [← replicate_add, ← replicate_add]
    congr 1
    omega
  have hwrite : writeAt
      (replicate (2 ^ (depth - 1) - 1) MerkleHash.default ++ replicate leaves.length .default ++
        replicate (2 ^ (depth - 1) - leaves.length) .default)
      (2 ^ (depth - 1) - 1) (leaves.map hashToMerkle) = _ :=
    (congrArg (writeAt _ · _) length_replicate.symm).trans (writeAt_append (by simp))
  unfold newWithDepth
  dsimp only
  rw [hstart, take_of_length_le (by simpa using hleaves), hrep, hwrite]

/-- Leaves beyond the width of the tree are not read. -/
theorem newWithDepth_take :
    newWithDepth hash (leaves.take (2 ^ (depth - 1))) depth = newWithDepth hash leaves depth := by
  unfold newWithDepth
  dsimp only
  rw [map_take, take_take, Nat.min_self]

/-- What a tree is, for the proofs: an array of known length whose inner entries combine
their children and whose leaves are the given ones, the missing ones being zero. -/
structure Built (hash : Bytes → Hash) (leaves : List Hash) (depth : ℕ) (t : MerkleTree) : Prop where
  start_eq : t.treeLeafStartIdx = 2 ^ (depth - 1) - 1
  length_eq : t.tree.length = 2 * 2 ^ (depth - 1) - 1
  isTree : IsTree (nodeHash hash) (2 ^ (depth - 1) - 1) (entry t.tree)
  leaf_eq : ∀ i < 2 ^ (depth - 1), entry t.tree (2 ^ (depth - 1) - 1 + i) =
    ((leaves[i]?).map hashToMerkle).getD .default

theorem built_newWithDepth (hash : Bytes → Hash) (leaves : List Hash) (depth : ℕ) :
    Built hash leaves depth (newWithDepth hash leaves depth) := by
  set used := leaves.take (2 ^ (depth - 1)) with hused
  have hle : used.length ≤ 2 ^ (depth - 1) := length_take_le _ _
  rw [← newWithDepth_take, newWithDepth_eq hash used depth hle]
  refine ⟨rfl, ?_, isTree_fillInner (by simp), fun i hi => ?_⟩
  · simp only [length_fillInner, length_append, length_replicate, length_map]
    omega
  rw [entry_fillInner_of_le (by simp) (Nat.le_add_right _ _), ← getElem?_take_of_lt hi, ← hused]
  unfold entry
  rw [getD_eq_getElem?_getD, append_assoc,
    getElem?_append_right (by simp), length_replicate, Nat.add_sub_cancel_left]
  by_cases hi : i < used.length
  · rw [getElem?_append_left (by simpa using hi), getElem?_map]
  · have hnone : used[i]? = none := getElem?_eq_none (by omega)
    rw [getElem?_append_right (by simpa using hi), hnone, getElem?_replicate]
    split <;> rfl

namespace Built

variable {t : MerkleTree}

/-- The proof of a leaf has a sibling for every level below the root. -/
theorem length_siblings (h : Built hash leaves depth t) (hi : leafIdx < 2 ^ (depth - 1)) :
    (t.proof leafIdx).siblings.length = depth - 1 := by
  have hpow : 2 ^ (depth - 1 + 1) = 2 * 2 ^ (depth - 1) := by rw [Nat.pow_succ, Nat.mul_comm]
  rw [proof, length_reverse]
  refine length_pathUp (entry t.tree) ?_ ?_ ?_
  · rw [h.start_eq, h.length_eq]
    omega
  · rw [h.start_eq]
    omega
  · rw [h.start_eq, hpow]
    omega

/-- The siblings of a leaf's proof and the leaf's index are a proof again. -/
theorem newFromLeafIdx_siblings (h : Built hash leaves depth t) (hi : leafIdx < 2 ^ (depth - 1))
    (hdepth : depth ≤ MAX_DEPTH) (hpos : 0 < depth) :
    MerkleProof.newFromLeafIdx (t.proof leafIdx).siblings leafIdx = some (t.proof leafIdx) := by
  have hlen := h.length_siblings hi
  rw [MerkleProof.newFromLeafIdx_eq_some, hlen]
  refine ⟨by omega, hi, ?_⟩
  rw [← h.start_eq]
  rfl

/-- The proof of a leaf leads from that leaf to the root. -/
theorem computeRoot_proof (h : Built hash leaves depth t) (hleaf : leaves[leafIdx]? = some leaf)
    (hi : leafIdx < 2 ^ (depth - 1)) :
    (t.proof leafIdx).computeRoot hash leaf = some t.root := by
  have hentry := h.leaf_eq leafIdx hi
  rw [hleaf, Option.map_some, Option.getD_some, ← h.start_eq] at hentry
  unfold MerkleProof.computeRoot proof
  rw [reverse_reverse, ← hentry]
  have hs := h.start_eq
  have hl := h.length_eq
  exact climb_pathUp h.isTree (by omega) (by omega)

end Built

end MerkleTree

/-! ## Binding -/

namespace MerkleProof

/-- The byte strings hashed at the lowest entries that the climbs from the hashes `h` and
`h'` have in common. -/
def nodeCollision (proof : MerkleProof) (siblings : List MerkleHash) (h h' : MerkleHash) :
    Option (Bytes × Bytes) :=
  (climbCollision (nodeHash hash) proof.siblings.reverse siblings.reverse
    (some proof.treeLeafIdx) h h').map fun c =>
      (c.1.1.toList ++ c.1.2.toList, c.2.1.toList ++ c.2.2.toList)

/-- The leaves themselves, or what is hashed above them. -/
def collision (proof : MerkleProof) (siblings : List MerkleHash) (x y : Bytes) :
    Option (Bytes × Bytes) :=
  if merkleHash hash x = merkleHash hash y then some (x, y)
  else nodeCollision hash proof siblings (merkleHash hash x) (merkleHash hash y)

variable {hash} {p : MerkleProof} {siblings : List MerkleHash} {x y : Bytes} {r : MerkleHash}

theorem nodeCollision_of_ne {h h' : MerkleHash} (hlen : p.siblings.length = siblings.length)
    (hne : h ≠ h') (hp : climb (nodeHash hash) p.siblings.reverse (some p.treeLeafIdx) h = some r)
    (hq : climb (nodeHash hash) siblings.reverse (some p.treeLeafIdx) h' = some r) :
    ∃ c, nodeCollision hash p siblings h h' = some c ∧ HashCollision hash c.1 c.2 := by
  obtain ⟨a, b, hc, hcol⟩ := climb_collision (by simpa using hlen) hne hp hq
  unfold nodeCollision
  rw [hc]
  exact ⟨_, rfl, hashCollision_of_isCollision hash hcol⟩

/-- Two proofs with one index and one number of siblings that lead to one root prove the
same leaf, or give a collision. -/
theorem eq_or_collision {q : MerkleProof} (hidx : p.treeLeafIdx = q.treeLeafIdx)
    (hlen : p.siblings.length = q.siblings.length)
    (hp : p.computeRoot hash (hash x) = some r) (hq : q.computeRoot hash (hash y) = some r) :
    x = y ∨ ∃ c, collision hash p q.siblings x y = some c ∧ HashCollision hash c.1 c.2 := by
  by_cases hxy : x = y
  · exact .inl hxy
  refine .inr ?_
  unfold collision
  split
  next heq => exact ⟨_, rfl, hxy, heq⟩
  next hne =>
    unfold computeRoot at hq
    rw [← hidx] at hq
    exact nodeCollision_of_ne hlen hne hp hq

end MerkleProof

namespace MerkleTree

/-- The collision of a proof of `x` at an index with the tree over `batch`. A missing leaf
is zero. -/
def collision (t : MerkleTree) (batch : List Bytes) (leafIdx : ℕ) (proof : MerkleProof)
    (x : Bytes) : Option (Bytes × Bytes) :=
  match batch[leafIdx]? with
  | some y => proof.collision hash (t.proof leafIdx).siblings x y
  | none => proof.nodeCollision hash (t.proof leafIdx).siblings (merkleHash hash x) .default

variable {hash}

/-- A proof that leads to the root of a tree proves what is stored at its index, or gives a
collision. -/
theorem Built.stored_or_collision {leaves : List Hash} {depth : ℕ} {t : MerkleTree}
    (h : Built hash leaves depth t) {p : MerkleProof} (hi : leafIdx < 2 ^ (depth - 1))
    (hidx : p.treeLeafIdx = t.treeLeafStartIdx + leafIdx) (hlen : p.siblings.length = depth - 1)
    (hroot : p.computeRoot hash leaf = some t.root) :
    hashToMerkle leaf = entry t.tree p.treeLeafIdx ∨
      ∃ c, p.nodeCollision hash (t.proof leafIdx).siblings (hashToMerkle leaf)
        (entry t.tree p.treeLeafIdx) = some c ∧ HashCollision hash c.1 c.2 := by
  by_cases hleaf : hashToMerkle leaf = entry t.tree p.treeLeafIdx
  · exact .inl hleaf
  have hs := h.start_eq
  have hl := h.length_eq
  have hup : climb (nodeHash hash) (pathUp (entry t.tree) t.tree.length p.treeLeafIdx)
      (some p.treeLeafIdx) (entry t.tree p.treeLeafIdx) = some t.root :=
    climb_pathUp h.isTree (by omega) (by omega)
  refine .inr (MerkleProof.nodeCollision_of_ne ?_ hleaf hroot ?_)
  · rw [h.length_siblings hi, hlen]
  · rw [proof, reverse_reverse, ← hidx]
    exact hup

/-- A proof that leads to the root of a tree proves the element at its index, or gives a
collision, or a byte string that hashes to the padding. -/
theorem Built.eq_or_collision {batch : List Bytes} {depth : ℕ} {t : MerkleTree}
    (h : Built hash (batch.map hash) depth t) {p : MerkleProof} {x : Bytes}
    (hi : leafIdx < 2 ^ (depth - 1)) (hidx : p.treeLeafIdx = t.treeLeafStartIdx + leafIdx)
    (hlen : p.siblings.length = depth - 1) (hroot : p.computeRoot hash (hash x) = some t.root) :
    batch[leafIdx]? = some x ∨
      (∃ c, collision hash t batch leafIdx p x = some c ∧ HashCollision hash c.1 c.2) ∨
      (batch[leafIdx]? = none ∧ merkleHash hash x = .default) := by
  unfold collision
  cases hb : batch[leafIdx]? with
  | some y =>
    have hy : (t.proof leafIdx).computeRoot hash (hash y) = some t.root :=
      h.computeRoot_proof (by rw [getElem?_map, hb]; rfl) hi
    have hlen' : p.siblings.length = (t.proof leafIdx).siblings.length := by
      rw [h.length_siblings hi, hlen]
    rcases MerkleProof.eq_or_collision hidx hlen' hroot hy with rfl | hc
    · exact .inl rfl
    · exact .inr (.inl hc)
  | none =>
    have hentry := h.leaf_eq leafIdx hi
    rw [getElem?_map, hb, Option.map_none, Option.map_none, Option.getD_none,
      ← h.start_eq, ← hidx] at hentry
    have hstored := h.stored_or_collision hi hidx hlen hroot
    rw [hentry] at hstored
    exact .inr (hstored.symm.imp_right fun hx => ⟨rfl, hx⟩)

/-- The proofs of a tree's leaves are proofs and lead to its root. No other siblings lead there
from another leaf than the one stored, unless they pass a collision. -/
theorem proofs_complete_binding {leaves : List Hash} {depth : ℕ} (hpos : 0 < depth)
    (hdepth : depth ≤ MAX_DEPTH) (hleaves : leaves.length ≤ 2 ^ (depth - 1)) :
    let t := newWithDepth hash leaves depth
    (∀ i leaf, leaves[i]? = some leaf → (t.proof i).siblings.length = depth - 1 ∧
      MerkleProof.newFromLeafIdx (t.proof i).siblings i = some (t.proof i) ∧
      (t.proof i).computeRoot hash leaf = some t.root) ∧
    ∀ j siblings p x, siblings.length = depth - 1 →
      MerkleProof.newFromLeafIdx siblings j = some p → p.computeRoot hash x = some t.root →
      (∀ c, p.nodeCollision hash (t.proof j).siblings (hashToMerkle x)
        (entry t.tree (t.treeLeafStartIdx + j)) = some c → ¬HashCollision hash c.1 c.2) →
      hashToMerkle x = entry t.tree (t.treeLeafStartIdx + j) ∧
        entry t.tree (t.treeLeafStartIdx + j) = ((leaves[j]?).map hashToMerkle).getD .default := by
  intro t
  have h : Built hash leaves depth t := built_newWithDepth hash leaves depth
  constructor
  · intro i leaf hleaf
    have hi : i < 2 ^ (depth - 1) := (List.getElem?_eq_some_iff.mp hleaf).1.trans_le hleaves
    exact ⟨h.length_siblings hi, h.newFromLeafIdx_siblings hi hdepth hpos,
      h.computeRoot_proof hleaf hi⟩
  · intro j siblings p x hlen hp hroot hfree
    obtain ⟨-, hj, rfl⟩ := MerkleProof.newFromLeafIdx_eq_some.mp hp
    rw [hlen] at hj
    have hidx : 2 ^ siblings.length - 1 + j = t.treeLeafStartIdx + j := by
      rw [hlen, h.start_eq]
    rw [hidx] at hroot hfree
    refine ⟨?_, h.start_eq ▸ h.leaf_eq j hj⟩
    rcases h.stored_or_collision hj rfl hlen hroot with hstored | ⟨c, hc, hcol⟩
    · exact hstored
    · exact absurd hcol (hfree c hc)

/-- A tree over one leaf, with a missing one beside it. -/
theorem proofs_complete_binding_one :
    let leaf : Hash := List.Vector.replicate 32 7
    let t := newWithDepth (fun _ => leaf) [leaf] 2
    (t.proof 0).siblings = [.default] ∧ (t.proof 0).computeRoot (fun _ => leaf) leaf = some t.root :=
  ⟨by decide, ((proofs_complete_binding (by decide) (by decide) (by decide)).1 0 _ rfl).2.2⟩

end MerkleTree

end MonadBft.Raptorcast
