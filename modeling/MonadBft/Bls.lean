import Mathlib.Algebra.BigOperators.Pi
import Mathlib.Algebra.Module.NatInt
import Mathlib.Data.List.Count
import MonadBft.Assoc
import MonadBft.Bytes
import MonadBft.HeapTree

/-!
# Aggregation of BLS signatures

`BlsSignatureCollection.new` aggregates the signatures of validators on one message. It adds them
up in a binary tree laid out in an array (`AggregationTree.new`), verifies the root, and searches
the tree for invalid signatures if that fails (`AggregationTree.verify`).

Keys and signatures form groups here, a signature verifies under a key if it is the image of the
key under a homomorphism that depends on the message, and nothing verifies under the identity
(`Scheme`).

A node of the tree stands for a sum over the leaves below it, of what each leaf holds: a signer
and a signature (`Leaves.content`, `new_spec`). The error of a node, its signature minus the image
of its key, is additive. So the signatures that the search blames have the error of the whole
list, and what is left aggregates to a signature with error zero. Such an aggregate verifies
unless its key is the identity, and this is the one case in which the contract of `new` fails
(`new_contract`): the search finds nobody to blame, and `new` returns the collection that has
just failed verification (`new_identity_key`).
-/

set_option linter.unusedSectionVars false

namespace MonadBft.Bls

open Assoc HeapTree List

variable {N K S : Type} [DecidableEq N] [AddCommGroup K] [DecidableEq K] [AddCommGroup S]
  [DecidableEq S] {i j : ℕ} {nodeId : N}

/-! ## Model -/

def MAX_SIGNERS_LEN : ℕ := 1024 * 16

/-- The signature scheme: the signature of a message that belongs to a key. -/
structure Scheme (K S : Type) [AddCommGroup K] [AddCommGroup S] where
  image : Bytes → K →+ S

/-- `fast_verify` of an aggregate, and `verify` of a single signature. -/
def fastVerify (B : Scheme K S) (domain msg : Bytes) (sig : S) (pubkey : K) : Bool :=
  decide (sig = B.image (domain ++ msg) pubkey ∧ pubkey ≠ 0)

/-- The keys of the validators, in the order of their ids. -/
structure ValidatorMapping (N K : Type) where
  map : List (N × K)
  nodup : (map.map Prod.fst).Nodup

theorem ValidatorMapping.eq_of_getElem_fst (mapping : ValidatorMapping N K)
    (hi : i < mapping.map.length) (hj : j < mapping.map.length)
    (h : mapping.map[i].1 = mapping.map[j].1) : i = j := by
  have hne := pairwise_iff_getElem.mp (pairwise_map.mp mapping.nodup)
  rcases Nat.lt_trichotomy i j with hlt | heq | hgt
  · exact absurd h (hne i j hi hj hlt)
  · exact heq
  · exact absurd h.symm (hne j i hj hi hgt)

theorem ValidatorMapping.exists_index {mapping : ValidatorMapping N K}
    (h : nodeId ∈ mapping.map.map Prod.fst) :
    ∃ index, mapping.map.findIdx? (fun e => decide (e.1 = nodeId)) = some index := by
  obtain ⟨e, he, heq⟩ := mem_map.mp h
  refine Option.isSome_iff_exists.mp ?_
  rw [findIdx?_isSome, any_eq_true]
  exact ⟨e, he, by simpa using heq⟩

theorem ValidatorMapping.ne_nil {mapping : ValidatorMapping N K} {sigs : List (N × S)}
    (hne : sigs ≠ []) (hmem : ∀ p ∈ sigs, p.1 ∈ mapping.map.map Prod.fst) : mapping.map ≠ [] := by
  obtain ⟨p, hp⟩ := exists_mem_of_ne_nil sigs hne
  intro hnil
  simpa [hnil] using hmem p hp

inductive SignatureCollectionError (N S : Type) where
  | nodeIdNotInMapping (sigs : List (N × S))
  | conflictingSignatures (nodeId : N) (entry sig : S)
  | invalidSignaturesCreate (sigs : List (N × S))
  | invalidSignaturesVerify
  deriving DecidableEq

/-- Where aggregation would panic. -/
inductive Panic where
  /-- `node in range` -/
  | nodeInRange
  /-- `validator index` -/
  | validatorIndex
  /-- A node or a bit that is not there. -/
  | indexOutOfBounds
  /-- The bitmaps of two nodes have different lengths. -/
  | signerMapLengths
  | notDisjoint
  /-- `signer should be one-hot encoded` -/
  | notOneHot
  /-- `signer idx in range` -/
  | signerIdxInRange
  /-- The search does not end. -/
  | searchStuck
  deriving DecidableEq

/-- The key and the nodes that a bitmap selects. -/
def selected (signers : List Bool) (mapping : ValidatorMapping N K) : K × List N :=
  (signers.zip mapping.map).foldl
    (fun acc e => if e.1 then (acc.1 + e.2.2, acc.2 ++ [e.2.1]) else acc) (0, [])

def verifyAggregateSig (B : Scheme K S) (domain : Bytes) (signers : List Bool) (sig : S)
    (mapping : ValidatorMapping N K) (msg : Bytes) :
    Except (SignatureCollectionError N S) (List N) :=
  if signers.length ≠ mapping.map.length then .error .invalidSignaturesVerify
  else if MAX_SIGNERS_LEN < signers.length then .error .invalidSignaturesVerify
  else
    let (aggpk, nodes) := selected signers mapping
    -- only the empty bitmap of an empty validator set goes with the identity
    if nodes.isEmpty ∧ signers.isEmpty ∧ sig = 0 then .ok nodes
    else if fastVerify B domain msg sig aggpk then .ok nodes
    else .error .invalidSignaturesVerify

structure AggregationTreeNode (S : Type) where
  signers : List Bool
  sig : S
  deriving DecidableEq

structure BlsSignatureCollection (S : Type) where
  signers : List Bool
  sig : S
  deriving DecidableEq

namespace AggregationTreeNode

def withCapacity (n : ℕ) : AggregationTreeNode S where
  signers := replicate n false
  sig := 0

def numSignatures (node : AggregationTreeNode S) : ℕ := node.signers.count true

def verify (B : Scheme K S) (domain : Bytes) (node : AggregationTreeNode S)
    (mapping : ValidatorMapping N K) (msg : Bytes) :
    Except (SignatureCollectionError N S) (List N) :=
  verifyAggregateSig B domain node.signers node.sig mapping msg

def intoCollection (node : AggregationTreeNode S) : BlsSignatureCollection S where
  signers := node.signers
  sig := node.sig

end AggregationTreeNode

def mergeNodes (n1 n2 : AggregationTreeNode S) : Except Panic (AggregationTreeNode S) :=
  if n1.signers.length ≠ n2.signers.length then .error .signerMapLengths
  else
    let cert : AggregationTreeNode S :=
      { signers := zipWith (· || ·) n1.signers n2.signers, sig := n1.sig + n2.sig }
    if n1.numSignatures + n2.numSignatures ≠ cert.numSignatures then .error .notDisjoint
    else .ok cert

namespace AggregationTree

/-- `signers.set(index, true)` and `sig.add_assign(sig)` at a leaf. -/
def addLeaf (node : AggregationTreeNode S) (index : ℕ) (sig : S) :
    Except Panic (AggregationTreeNode S) :=
  if index < node.signers.length then
    .ok { signers := node.signers.set index true, sig := node.sig + sig }
  else .error .indexOutOfBounds

/-- Copy the signatures to the leaves, from leaf `i` on. -/
def copyLeaves (validatorIndex : N → Option ℕ) (n : ℕ) :
    ℕ → List (N × S) → List (AggregationTreeNode S) → Except Panic (List (AggregationTreeNode S))
  | _, [], nodes => .ok nodes
  | i, (nodeId, sig) :: sigs, nodes => do
    match nodes[n + i - 1]? with
    | none => .error .nodeInRange
    | some cert =>
      match validatorIndex nodeId with
      | none => .error .validatorIndex
      | some index =>
        let cert ← addLeaf cert index sig
        copyLeaves validatorIndex n (i + 1) sigs (nodes.set (n + i - 1) cert)

/-- Merge the children of the nodes below `i`, from the last to the first. -/
def mergeAll : ℕ → List (AggregationTreeNode S) → Except Panic (List (AggregationTreeNode S))
  | 0, nodes => .ok nodes
  | i + 1, nodes => do
    match nodes[2 * i + 1]?, nodes[2 * i + 2]? with
    | some left, some right =>
      let merged ← mergeNodes left right
      mergeAll i (nodes.set i merged)
    | _, _ => .error .indexOutOfBounds

/-- The nodes of the tree over a list of signatures. -/
def new (sigs : List (N × S)) (mapping : ValidatorMapping N K) (validatorIndex : N → Option ℕ) :
    Except Panic (List (AggregationTreeNode S)) :=
  if sigs.isEmpty then .ok [.withCapacity mapping.map.length]
  else do
    let n := sigs.length
    let nodes ← copyLeaves validatorIndex n 0 sigs
      (replicate (n * 2 - 1) (.withCapacity mapping.map.length))
    mergeAll (n - 1) nodes

/-- The signature of a leaf that failed, with its signer. -/
def invalidSig (cert : AggregationTreeNode S) (mapping : ValidatorMapping N K) :
    Except Panic (N × S) :=
  match cert.signers.findIdx? id with
  | none => .error .notOneHot
  | some signerIdx =>
    match mapping.map[signerIdx]? with
    | none => .error .signerIdxInRange
    | some (nodeId, _) => .ok (nodeId, cert.sig)

/-- The search for invalid signatures, as the loop over the queue of nodes to verify. -/
def searchInvalid (B : Scheme K S) (domain : Bytes) (mapping : ValidatorMapping N K)
    (msg : Bytes) (nodes : List (AggregationTreeNode S)) :
    ℕ → List ℕ → List (N × S) → Except Panic (List (N × S))
  | _, [], invalid => .ok invalid
  | 0, _ :: _, _ => .error .searchStuck
  | fuel + 1, certIdx :: unverified, invalid => do
    match nodes[certIdx]? with
    | none => .error .indexOutOfBounds
    | some cert =>
      match cert.verify B domain mapping msg with
      | .ok _ => searchInvalid B domain mapping msg nodes fuel unverified invalid
      | .error _ =>
        if 2 * certIdx + 1 ≥ nodes.length then
          let pair ← invalidSig cert mapping
          searchInvalid B domain mapping msg nodes fuel unverified (invalid ++ [pair])
        else
          searchInvalid B domain mapping msg nodes fuel
            (unverified ++ [certIdx * 2 + 1, certIdx * 2 + 2]) invalid

/-- The collection of the root, or the signatures to blame. -/
def verify (B : Scheme K S) (domain : Bytes) (nodes : List (AggregationTreeNode S))
    (mapping : ValidatorMapping N K) (msg : Bytes) :
    Except Panic (Except (List (N × S)) (BlsSignatureCollection S)) := do
  let invalid ← searchInvalid B domain mapping msg nodes nodes.length [0] []
  if invalid.isEmpty then
    match nodes[0]? with
    | none => .error .indexOutOfBounds
    | some root => .ok (.ok root.intoCollection)
  else .ok (.error invalid)

end AggregationTree

/-- The order in which a hash map is iterated. -/
structure MapOrder (α : Type) where
  order : List α → List α
  perm : ∀ l, (order l).Perm l

namespace BlsSignatureCollection

/-- The first loop of `new`: the signature of each node, and the nodes that are no validators. -/
def collect (mapping : ValidatorMapping N K) :
    List (N × S) → List (N × S) → List (N × S) →
      Except (SignatureCollectionError N S) (List (N × S) × List (N × S))
  | [], sigsMap, nonValidator => .ok (sigsMap, nonValidator)
  | (nodeId, sig) :: sigs, sigsMap, nonValidator =>
    let nonValidator :=
      if nodeId ∈ mapping.map.map Prod.fst then nonValidator else nonValidator ++ [(nodeId, sig)]
    match get? sigsMap nodeId with
    | none => collect mapping sigs (Assoc.set sigsMap nodeId sig) nonValidator
    | some entry =>
      if entry = sig then collect mapping sigs sigsMap nonValidator
      else .error (.conflictingSignatures nodeId entry sig)

def new (B : Scheme K S) (hashOrder : MapOrder (N × S)) (domain : Bytes) (sigs : List (N × S))
    (mapping : ValidatorMapping N K) (msg : Bytes) :
    Except Panic (Except (SignatureCollectionError N S) (BlsSignatureCollection S)) := do
  let validatorIndex := fun nodeId => mapping.map.findIdx? fun e => decide (e.1 = nodeId)
  match collect mapping sigs [] [] with
  | .error e => .ok (.error e)
  | .ok (sigsMap, nonValidator) =>
    if ¬ nonValidator.isEmpty then .ok (.error (.nodeIdNotInMapping nonValidator))
    else
      let tree ← AggregationTree.new (hashOrder.order sigsMap) mapping validatorIndex
      match ← AggregationTree.verify B domain tree mapping msg with
      | .ok c => .ok (.ok c)
      | .error invalid => .ok (.error (.invalidSignaturesCreate invalid))

def verify (B : Scheme K S) (domain : Bytes) (c : BlsSignatureCollection S)
    (mapping : ValidatorMapping N K) (msg : Bytes) :
    Except (SignatureCollectionError N S) (List N) :=
  verifyAggregateSig B domain c.signers c.sig mapping msg

end BlsSignatureCollection

/-! ## The tree as a sum over its leaves -/

/-- What a leaf of the tree holds: its signer, as a count for each node, and its signature. -/
def content (sigs : List (N × S)) (j : ℕ) : (N → ℕ) × S :=
  match sigs[j]? with
  | none => 0
  | some (nodeId, sig) => (Pi.single nodeId 1, sig)

/-- The node of a tree whose leaves hold `c` together. -/
def nodeOf (mapping : ValidatorMapping N K) (c : (N → ℕ) × S) : AggregationTreeNode S where
  signers := mapping.map.map fun e => decide (0 < c.1 e.1)
  sig := c.2

/-- No node signed twice. -/
def Distinct (c : (N → ℕ) × S) : Prop := ∀ nodeId, c.1 nodeId ≤ 1

variable {mapping : ValidatorMapping N K} {sigs : List (N × S)} {p : N × S}

theorem numSignatures_nodeOf {c : (N → ℕ) × S} (h : Distinct c) :
    (nodeOf mapping c).numSignatures = (mapping.map.map fun e => c.1 e.1).sum := by
  unfold AggregationTreeNode.numSignatures nodeOf
  induction mapping.map with
  | nil => rfl
  | cons e l ih =>
    have hle := h e.1
    rw [map_cons, count_cons, ih, map_cons, sum_cons]
    rcases Nat.eq_zero_or_pos (c.1 e.1) with h0 | hpos
    · simp [h0]
    · simp only [hpos, decide_true, beq_self_eq_true, if_true]
      omega

theorem mergeNodes_nodeOf {c d : (N → ℕ) × S} (h : Distinct (c + d)) :
    mergeNodes (nodeOf mapping c) (nodeOf mapping d) = .ok (nodeOf mapping (c + d)) := by
  have hc : Distinct c := fun v => le_trans (Nat.le_add_right _ (d.1 v)) (h v)
  have hd : Distinct d := fun v => le_trans (Nat.le_add_left _ (c.1 v)) (h v)
  have hsigners : zipWith (· || ·) (nodeOf mapping c).signers (nodeOf mapping d).signers
      = (nodeOf mapping (c + d)).signers := by
    unfold nodeOf
    rw [zipWith_map, zipWith_self]
    refine map_congr_left fun e _ => ?_
    rw [← Bool.decide_or]
    refine decide_eq_decide.mpr ?_
    rw [Prod.fst_add, Pi.add_apply]
    omega
  have hsum : (mapping.map.map fun e => c.1 e.1).sum + (mapping.map.map fun e => d.1 e.1).sum
      = (mapping.map.map fun e => (c + d).1 e.1).sum := by
    rw [← sum_map_add]
    rfl
  unfold mergeNodes
  rw [if_neg (by simp [nodeOf])]
  simp only [hsigners]
  change (if _ ≠ (nodeOf mapping (c + d)).numSignatures then _ else _) = _
  rw [numSignatures_nodeOf hc, numSignatures_nodeOf hd, numSignatures_nodeOf h, hsum]
  exact if_neg (by simp)

/-- The bit of a node alone. -/
theorem addLeaf_withCapacity {index : ℕ} (sig : S)
    (h : mapping.map.findIdx? (fun e => decide (e.1 = nodeId)) = some index) :
    AggregationTree.addLeaf (.withCapacity mapping.map.length) index sig
      = .ok (nodeOf mapping (Pi.single nodeId 1, sig)) := by
  obtain ⟨hlt, hat, -⟩ := findIdx?_eq_some_iff_getElem.mp h
  have hnode : mapping.map[index].1 = nodeId := by simpa using hat
  unfold AggregationTree.addLeaf AggregationTreeNode.withCapacity
  rw [if_pos (by simpa using hlt)]
  congr 1
  congr 1
  · refine ext_getElem (by simp) fun k hk hk' => ?_
    have hkm : k < mapping.map.length := by simpa using hk
    rw [getElem_set, getElem_map]
    split
    next heq =>
      subst heq
      simp [hnode]
    next hne =>
      have : mapping.map[k].1 ≠ nodeId := by
        intro heq
        exact hne (mapping.eq_of_getElem_fst hlt hkm (hnode.trans heq.symm))
      simp [this]
  · simp

theorem content_of_getElem? (h : sigs[j]? = some p) : content sigs j = (Pi.single p.1 1, p.2) := by
  unfold content
  rw [h]

/-- All leaves together. -/
theorem sum_content (sigs : List (N × S)) :
    ∑ j ∈ Finset.range sigs.length, content sigs j
      = (sigs.map fun p => ((Pi.single p.1 1, p.2) : (N → ℕ) × S)).sum := by
  induction sigs with
  | nil => rfl
  | cons p sigs ih =>
    rw [length_cons, Finset.sum_range_succ', map_cons, sum_cons, ← ih, add_comm]
    rfl

def countOf (nodeId : N) : ((N → ℕ) × S) →+ ℕ :=
  (Pi.evalAddMonoidHom (fun _ => ℕ) nodeId).comp (AddMonoidHom.fst (N → ℕ) S)

theorem countOf_apply (nodeId : N) (c : (N → ℕ) × S) : countOf nodeId c = c.1 nodeId := rfl

theorem countOf_sum_content (nodeId : N) (sigs : List (N × S)) :
    countOf nodeId (∑ j ∈ Finset.range sigs.length, content sigs j)
      = (sigs.map Prod.fst).count nodeId := by
  rw [sum_content]
  induction sigs with
  | nil => rfl
  | cons p sigs ih =>
    rw [map_cons, sum_cons, map_add, ih, map_cons, count_cons, add_comm]
    congr 1
    change (Pi.single p.1 1 : N → ℕ) nodeId = _
    by_cases h : nodeId = p.1
    · simp [h]
    · simp [h, Ne.symm h]

/-- The node of the tree over `sigs` at position `i`. -/
def treeNode (mapping : ValidatorMapping N K) (sigs : List (N × S)) (i : ℕ) :
    AggregationTreeNode S :=
  nodeOf mapping (total sigs.length (content sigs) i)

theorem distinct_total (hnodup : (sigs.map Prod.fst).Nodup) (hi : i < 2 * sigs.length - 1) :
    Distinct (total sigs.length (content sigs) i) := by
  intro nodeId
  have hpos : 0 < sigs.length := by omega
  calc (total sigs.length (content sigs) i).1 nodeId
      = total sigs.length (fun j => countOf nodeId (content sigs j)) i := by
        rw [← countOf_apply, map_total]
    _ ≤ total sigs.length (fun j => countOf nodeId (content sigs j)) 0 := total_le_total_zero _ _ hi
    _ = (sigs.map Prod.fst).count nodeId := by
        rw [total_zero hpos, ← map_sum, countOf_sum_content]
    _ ≤ 1 := nodup_iff_count_le_one.mp hnodup nodeId

theorem treeNode_leaf (h : sigs[j]? = some p) :
    treeNode mapping sigs (sigs.length + j - 1) = nodeOf mapping (Pi.single p.1 1, p.2) := by
  have hj : j < sigs.length := (List.getElem?_eq_some_iff.mp h).1
  unfold treeNode
  rw [total_leaf (by omega), show sigs.length + j - 1 + 1 - sigs.length = j by omega,
    content_of_getElem? h]

namespace AggregationTree

/-- The nodes from `k` on are those of the tree over `sigs`. -/
def BuiltFrom (mapping : ValidatorMapping N K) (sigs : List (N × S)) (k : ℕ)
    (nodes : List (AggregationTreeNode S)) : Prop :=
  nodes.length = 2 * sigs.length - 1 ∧
    ∀ i, k ≤ i → i < 2 * sigs.length - 1 → nodes[i]? = some (treeNode mapping sigs i)

variable {nodes : List (AggregationTreeNode S)}

theorem copyLeaves_spec (hmem : ∀ p ∈ sigs, p.1 ∈ mapping.map.map Prod.fst)
    (hlen : nodes.length = 2 * sigs.length - 1)
    (hdone : ∀ k, sigs.length - 1 ≤ k → k < sigs.length + i - 1 →
      nodes[k]? = some (treeNode mapping sigs k))
    (hrest : ∀ k, sigs.length + i - 1 ≤ k → k < 2 * sigs.length - 1 →
      nodes[k]? = some (.withCapacity mapping.map.length)) :
    ∃ nodes', copyLeaves (fun nodeId => mapping.map.findIdx? fun e => decide (e.1 = nodeId))
        sigs.length i (sigs.drop i) nodes = .ok nodes' ∧
      BuiltFrom mapping sigs (sigs.length - 1) nodes' := by
  induction hrem : sigs.drop i generalizing i nodes with
  | nil =>
    have hi : sigs.length ≤ i := drop_eq_nil_iff.mp hrem
    exact ⟨nodes, rfl, hlen, fun k hk hlt => hdone k hk (by omega)⟩
  | cons p rest ih =>
    have hi : i < sigs.length := by
      by_contra hge
      rw [drop_eq_nil_iff.mpr (by omega)] at hrem
      cases hrem
    have hp : sigs[i]? = some p := by
      rw [← head?_drop, hrem]
      rfl
    have hdrop : sigs.drop (i + 1) = rest := by
      rw [← tail_drop, hrem]
      rfl
    obtain ⟨index, hindex⟩ := ValidatorMapping.exists_index (hmem p (mem_of_getElem? hp))
    have hnode := hrest (sigs.length + i - 1) le_rfl (by omega)
    obtain ⟨nodeId, sig⟩ := p
    unfold copyLeaves
    simp only [hnode, hindex, addLeaf_withCapacity sig hindex]
    refine ih ?_ ?_ ?_ hdrop
    · rw [length_set, hlen]
    · intro k hk hlt
      rcases eq_or_ne k (sigs.length + i - 1) with rfl | hne
      · rw [getElem?_set_self (by omega), treeNode_leaf hp]
      · rw [getElem?_set_ne hne.symm]
        exact hdone k hk (by omega)
    · intro k hk hlt
      rw [getElem?_set_ne (by omega)]
      exact hrest k (by omega) hlt

theorem mergeAll_spec (hnodup : (sigs.map Prod.fst).Nodup) (hi : i + 1 ≤ sigs.length)
    (h : BuiltFrom mapping sigs i nodes) :
    ∃ nodes', mergeAll i nodes = .ok nodes' ∧ BuiltFrom mapping sigs 0 nodes' := by
  induction i generalizing nodes with
  | zero => exact ⟨nodes, rfl, h⟩
  | succ i ih =>
    have hmerge : mergeNodes (treeNode mapping sigs (2 * i + 1)) (treeNode mapping sigs (2 * i + 2))
        = .ok (treeNode mapping sigs i) := by
      have hinner := total_inner (w := content sigs) (show i + 1 < sigs.length by omega)
      unfold treeNode
      rw [hinner]
      refine mergeNodes_nodeOf ?_
      rw [← hinner]
      exact distinct_total hnodup (by omega)
    unfold mergeAll
    rw [h.2 (2 * i + 1) (by omega) (by omega), h.2 (2 * i + 2) (by omega) (by omega)]
    simp only [hmerge]
    refine ih (by omega) ⟨?_, fun k hk hlt => ?_⟩
    · rw [length_set, h.1]
    · rcases eq_or_ne k i with rfl | hne
      · rw [getElem?_set_self (by rw [h.1]; omega)]
      · rw [getElem?_set_ne hne.symm]
        exact h.2 k (by omega) hlt

/-- The tree over signatures of different validators is built, and its nodes are sums. -/
theorem new_spec (hne : sigs ≠ []) (hnodup : (sigs.map Prod.fst).Nodup)
    (hmem : ∀ p ∈ sigs, p.1 ∈ mapping.map.map Prod.fst) :
    ∃ nodes, new sigs mapping (fun nodeId => mapping.map.findIdx? fun e => decide (e.1 = nodeId))
      = .ok nodes ∧ BuiltFrom mapping sigs 0 nodes := by
  have hpos : 0 < sigs.length := length_pos_iff.mpr hne
  have hlen : (replicate (sigs.length * 2 - 1)
      (.withCapacity mapping.map.length : AggregationTreeNode S)).length = 2 * sigs.length - 1 := by
    rw [length_replicate]
    omega
  obtain ⟨leaves, hcopy, hleaves⟩ := copyLeaves_spec (i := 0) hmem hlen
    (fun k hk hlt => by omega) (fun k hk hlt => by
      rw [getElem?_replicate, if_pos (by omega)])
  obtain ⟨nodes, hmerge, hnodes⟩ := mergeAll_spec hnodup (by omega) hleaves
  refine ⟨nodes, ?_, hnodes⟩
  unfold new
  rw [if_neg (by simpa using hne)]
  rw [drop_zero] at hcopy
  simp only [hcopy]
  exact hmerge

end AggregationTree

/-! ## Verification of a node -/

def keyOf (mapping : ValidatorMapping N K) : (N → ℕ) →+ K where
  toFun c := (mapping.map.map fun e => c e.1 • e.2).sum
  map_zero' := by simp
  map_add' c d := by simp [add_nsmul, sum_map_add]

/-- The signature of a content, minus the one that belongs to its key. -/
def errorOf (B : Scheme K S) (domain msg : Bytes) (mapping : ValidatorMapping N K) :
    ((N → ℕ) × S) →+ S :=
  AddMonoidHom.snd _ _
    - (B.image (domain ++ msg)).comp ((keyOf mapping).comp (AddMonoidHom.fst _ _))

/-- A content whose node verifies. -/
def Accepts (B : Scheme K S) (domain msg : Bytes) (mapping : ValidatorMapping N K)
    (c : (N → ℕ) × S) : Prop :=
  mapping.map.length ≤ MAX_SIGNERS_LEN ∧ errorOf B domain msg mapping c = 0 ∧ keyOf mapping c.1 ≠ 0

instance (B : Scheme K S) (domain msg : Bytes) (mapping : ValidatorMapping N K)
    (c : (N → ℕ) × S) : Decidable (Accepts B domain msg mapping c) :=
  inferInstanceAs (Decidable (_ ∧ _ ∧ _))

/-- The validators in a content, in the order of the mapping. -/
def signersOf (mapping : ValidatorMapping N K) (c : (N → ℕ) × S) : List N :=
  (mapping.map.filter fun e => decide (0 < c.1 e.1)).map Prod.fst

variable {B : Scheme K S} {domain msg : Bytes} {c : (N → ℕ) × S}

theorem errorOf_apply :
    errorOf B domain msg mapping c = c.2 - B.image (domain ++ msg) (keyOf mapping c.1) := rfl

theorem selected_nodeOf (h : Distinct c) :
    selected (nodeOf mapping c).signers mapping = (keyOf mapping c.1, signersOf mapping c) := by
  have hloop : ∀ (l : List (N × K)) (acc : K × List N),
      ((l.map fun e => decide (0 < c.1 e.1)).zip l).foldl
        (fun acc e => if e.1 then (acc.1 + e.2.2, acc.2 ++ [e.2.1]) else acc) acc
      = (acc.1 + (l.map fun e => c.1 e.1 • e.2).sum,
          acc.2 ++ (l.filter fun e => decide (0 < c.1 e.1)).map Prod.fst) := by
    intro l
    induction l with
    | nil => simp
    | cons e l ih =>
      intro acc
      rw [map_cons, zip_cons_cons, foldl_cons, ih]
      rcases Nat.eq_zero_or_pos (c.1 e.1) with h0 | hpos
      · simp [h0]
      · have h1 : c.1 e.1 = 1 := le_antisymm (h e.1) hpos
        simp [h1, add_assoc]
  have := hloop mapping.map (0, [])
  rw [zero_add, nil_append] at this
  exact this

theorem verify_nodeOf (hmap : mapping.map ≠ []) (h : Distinct c) :
    (nodeOf mapping c).verify B domain mapping msg
      = if Accepts B domain msg mapping c then .ok (signersOf mapping c)
        else .error .invalidSignaturesVerify := by
  have hlen : (nodeOf mapping c).signers.length = mapping.map.length := by
    unfold nodeOf
    rw [length_map]
  have hsigners : (nodeOf mapping c).signers ≠ [] := by
    intro hnil
    rw [hnil] at hlen
    exact hmap (length_eq_zero_iff.mp hlen.symm)
  have hfast : fastVerify B domain msg (nodeOf mapping c).sig (keyOf mapping c.1) = true ↔
      errorOf B domain msg mapping c = 0 ∧ keyOf mapping c.1 ≠ 0 := by
    unfold fastVerify
    rw [decide_eq_true_iff, errorOf_apply, sub_eq_zero]
    rfl
  unfold AggregationTreeNode.verify verifyAggregateSig
  rw [if_neg (by simp [hlen]), selected_nodeOf h, hlen]
  by_cases hmax : mapping.map.length ≤ MAX_SIGNERS_LEN
  · rw [if_neg (by omega)]
    dsimp only
    rw [if_neg (by simp [hsigners])]
    by_cases hok : errorOf B domain msg mapping c = 0 ∧ keyOf mapping c.1 ≠ 0
    · rw [if_pos (hfast.mpr hok), if_pos ⟨hmax, hok⟩]
    · rw [if_neg (mt hfast.mp hok), if_neg (fun hall => hok hall.2)]
  · rw [if_pos (by omega), if_neg (fun hall => hmax hall.1)]

/-- Whether a signature verifies under the key of its node. -/
def verifiesAlone (B : Scheme K S) (domain msg : Bytes) (mapping : ValidatorMapping N K)
    (p : N × S) : Bool :=
  match get? mapping.map p.1 with
  | none => false
  | some key => fastVerify B domain msg p.2 key

def aggregateKey (mapping : ValidatorMapping N K) (nodes : List N) : K :=
  ((mapping.map.filter fun e => decide (e.1 ∈ nodes)).map Prod.snd).sum

theorem keyOf_eq_aggregateKey {counts : N → ℕ} {nodes : List N}
    (h : ∀ v, counts v = if v ∈ nodes then 1 else 0) :
    keyOf mapping counts = aggregateKey mapping nodes := by
  change (mapping.map.map fun e => counts e.1 • e.2).sum = _
  unfold aggregateKey
  induction mapping.map with
  | nil => rfl
  | cons e l ih =>
    rw [map_cons, sum_cons, ih, h]
    by_cases he : e.1 ∈ nodes
    · simp [he]
    · simp [he]

theorem aggregateKey_singleton {key : K} (h : get? mapping.map nodeId = some key) :
    aggregateKey mapping [nodeId] = key := by
  have hperm := perm_cons_remove mapping.nodup h
  have hrest : (Assoc.remove mapping.map nodeId).filter (fun e => decide (e.1 ∈ [nodeId])) = [] := by
    refine filter_eq_nil_iff.mpr fun e he => ?_
    have : e.1 ≠ nodeId := by simpa [Assoc.remove] using (mem_filter.mp he).2
    simpa using this
  unfold aggregateKey
  rw [((hperm.filter _).map _).sum_eq, filter_cons_of_pos (by simp), hrest]
  simp

/-- A leaf verifies if its signature does, in a mapping that is not too large. -/
theorem accepts_single (hmem : p.1 ∈ mapping.map.map Prod.fst) :
    Accepts B domain msg mapping (Pi.single p.1 1, p.2) ↔
      mapping.map.length ≤ MAX_SIGNERS_LEN ∧ verifiesAlone B domain msg mapping p = true := by
  obtain ⟨key, hkey⟩ := exists_get?_of_mem_keys hmem
  have hsingle : keyOf mapping (Pi.single p.1 1) = key := by
    have hcounts : ∀ v, (Pi.single p.1 1 : N → ℕ) v = if v ∈ [p.1] then 1 else 0 := by
      intro v
      simp only [Pi.single_apply, mem_singleton]
    rw [keyOf_eq_aggregateKey hcounts, aggregateKey_singleton hkey]
  unfold Accepts verifiesAlone fastVerify
  rw [errorOf_apply, hsingle, hkey, sub_eq_zero, decide_eq_true_iff]

/-! ## The search -/

def errorAt (B : Scheme K S) (domain msg : Bytes) (mapping : ValidatorMapping N K) (p : N × S) :
    S :=
  errorOf B domain msg mapping (Pi.single p.1 1, p.2)

theorem errorOf_sum_content :
    errorOf B domain msg mapping (∑ j ∈ Finset.range sigs.length, content sigs j)
      = (sigs.map (errorAt B domain msg mapping)).sum := by
  rw [sum_content, map_list_sum, map_map]
  rfl

/-- What is known of the signatures `blamed` that the search over `sigs` has found. -/
structure Verdict (B : Scheme K S) (domain msg : Bytes) (mapping : ValidatorMapping N K)
    (sigs blamed : List (N × S)) : Prop where
  nodup : blamed.Nodup
  mem : ∀ p ∈ blamed, p ∈ sigs
  invalid : mapping.map.length ≤ MAX_SIGNERS_LEN →
    ∀ p ∈ blamed, verifiesAlone B domain msg mapping p = false
  /-- What is left has no error. -/
  sum_eq : (blamed.map (errorAt B domain msg mapping)).sum
    = (sigs.map (errorAt B domain msg mapping)).sum
  /-- Nobody is blamed if the root verifies. -/
  of_accepts : Accepts B domain msg mapping (∑ j ∈ Finset.range sigs.length, content sigs j) →
    blamed = []
  /-- Nothing verifies in a mapping that is too large. -/
  of_large : MAX_SIGNERS_LEN < mapping.map.length → ∀ p ∈ sigs, p ∈ blamed

namespace AggregationTree

variable {nodes : List (AggregationTreeNode S)} {leaves : List ℕ}

theorem invalidSig_nodeOf {p : N × S} (hmem : p.1 ∈ mapping.map.map Prod.fst) :
    invalidSig (nodeOf mapping (Pi.single p.1 1, p.2)) mapping = .ok p := by
  have hfind : (nodeOf mapping (Pi.single p.1 1, p.2)).signers.findIdx? id
      = mapping.map.findIdx? fun e => decide (e.1 = p.1) := by
    unfold nodeOf
    rw [findIdx?_map]
    congr 1
    funext e
    simp only [Function.comp_apply, id_eq, Pi.single_apply]
    split <;> simp_all
  obtain ⟨index, hindex⟩ := ValidatorMapping.exists_index hmem
  obtain ⟨hlt, hat, -⟩ := findIdx?_eq_some_iff_getElem.mp hindex
  have hnode : mapping.map[index].1 = p.1 := by simpa using hat
  unfold invalidSig
  rw [hfind, hindex]
  dsimp only
  rw [getElem?_eq_getElem hlt]
  change Except.ok (mapping.map[index].1, p.2) = _
  rw [hnode]

def passes (B : Scheme K S) (domain msg : Bytes) (mapping : ValidatorMapping N K)
    (sigs : List (N × S)) (i : ℕ) : Bool :=
  decide (Accepts B domain msg mapping (total sigs.length (content sigs) i))

/-- The loop of the code is the search in the tree of sums. -/
theorem searchInvalid_eq (hnodup : (sigs.map Prod.fst).Nodup)
    (hmem : ∀ p ∈ sigs, p.1 ∈ mapping.map.map Prod.fst) (hmap : mapping.map ≠ [])
    (hnodes : BuiltFrom mapping sigs 0 nodes) {fuel : ℕ} {queue found : List ℕ}
    (hqueue : InTree sigs.length queue)
    (h : descend sigs.length (passes B domain msg mapping sigs) fuel queue found = some leaves) :
    searchInvalid B domain mapping msg nodes fuel queue (found.filterMap (sigs[·]?))
      = .ok (leaves.filterMap (sigs[·]?)) := by
  have hverify : ∀ {i}, i < 2 * sigs.length - 1 →
      (treeNode mapping sigs i).verify B domain mapping msg = _ := fun hi =>
    verify_nodeOf hmap (distinct_total hnodup hi)
  fun_induction descend sigs.length (passes B domain msg mapping sigs) fuel queue found with
  | case1 =>
    cases h
    unfold searchInvalid
    rfl
  | case2 => cases h
  | case3 fuel i queue found hacc ih =>
    have hi := hqueue i (by simp)
    unfold searchInvalid
    rw [hnodes.2 i (Nat.zero_le i) hi]
    dsimp only
    rw [hverify hi, if_pos (by simpa [passes] using hacc)]
    exact ih hqueue.tail h
  | case4 fuel i queue found hacc hin ih =>
    have hi := hqueue i (by simp)
    unfold searchInvalid
    rw [hnodes.2 i (Nat.zero_le i) hi]
    dsimp only
    rw [hverify hi, if_neg (by simpa [passes] using hacc), if_neg (by rw [hnodes.1]; omega),
      mul_comm i]
    exact ih (hqueue.children hin) h
  | case5 fuel i queue found hacc hin ih =>
    have hi := hqueue i (by simp)
    unfold searchInvalid
    rw [hnodes.2 i (Nat.zero_le i) hi]
    dsimp only
    rw [hverify hi, if_neg (by simpa [passes] using hacc), if_pos (by rw [hnodes.1]; omega)]
    have hlt : i + 1 - sigs.length < sigs.length := by omega
    have hp := getElem?_eq_getElem hlt
    have hleaf := total_leaf (w := content sigs) hin
    rw [content_of_getElem? hp] at hleaf
    unfold treeNode
    rw [hleaf, invalidSig_nodeOf (hmem _ (getElem_mem hlt))]
    have := ih hqueue.tail h
    rw [filterMap_append, filterMap_cons_some hp, filterMap_nil] at this
    exact this

theorem sum_map_filterMap (f : N × S → S) (g : ℕ → S)
    (h : ∀ j ∈ leaves, ∃ p, sigs[j]? = some p ∧ g j = f p) :
    ((leaves.filterMap (sigs[·]?)).map f).sum = (leaves.map g).sum := by
  induction leaves with
  | nil => rfl
  | cons j leaves ih =>
    obtain ⟨p, hp, hg⟩ := h j (by simp)
    rw [filterMap_cons_some hp, map_cons, sum_cons, map_cons, sum_cons, hg,
      ih fun k hk => h k (by simp [hk])]

/-- The tree of different validators is verified without a panic. Its root is returned, or the
signatures that the search blames. -/
theorem verify_spec (B : Scheme K S) (domain msg : Bytes) (hne : sigs ≠ [])
    (hnodup : (sigs.map Prod.fst).Nodup) (hmem : ∀ p ∈ sigs, p.1 ∈ mapping.map.map Prod.fst)
    (hnodes : BuiltFrom mapping sigs 0 nodes) :
    ∃ blamed, Verdict B domain msg mapping sigs blamed ∧
      verify B domain nodes mapping msg = .ok (if blamed = [] then
        .ok (nodeOf mapping (∑ j ∈ Finset.range sigs.length, content sigs j)).intoCollection
        else .error blamed) := by
  have hpos : 0 < sigs.length := length_pos_iff.mpr hne
  have hmap := ValidatorMapping.ne_nil hne hmem
  obtain ⟨leaves, hdescend, hleaves, hfailing⟩ :=
    descend_spec hpos (passes B domain msg mapping sigs)
  have hat : ∀ j ∈ leaves, ∃ p, sigs[j]? = some p ∧
      errorOf B domain msg mapping (content sigs j) = errorAt B domain msg mapping p := by
    intro j hj
    have hp := getElem?_eq_getElem (hfailing j hj).1
    exact ⟨_, hp, by rw [content_of_getElem? hp]; rfl⟩
  have hsearch := searchInvalid_eq hnodup hmem hmap hnodes (by
    intro i hi
    obtain rfl := mem_singleton.mp hi
    omega) hdescend
  rw [filterMap_nil, ← hnodes.1] at hsearch
  refine ⟨leaves.filterMap (sigs[·]?), ⟨?_, ?_, ?_, ?_, ?_, ?_⟩, ?_⟩
  · -- different leaves hold different signatures
    refine hleaves.filterMap fun j k p hj hk => ?_
    obtain ⟨hlt, hj⟩ := List.getElem?_eq_some_iff.mp (Option.mem_def.mp hj)
    obtain ⟨hlt', hk⟩ := List.getElem?_eq_some_iff.mp (Option.mem_def.mp hk)
    exact (List.Nodup.of_map _ hnodup).getElem_inj_iff.mp (hj.trans hk.symm)
  · intro p hp
    obtain ⟨j, -, hj⟩ := mem_filterMap.mp hp
    exact mem_of_getElem? hj
  · intro hlen p hp
    obtain ⟨j, hj, hjp⟩ := mem_filterMap.mp hp
    have hfail := (hfailing j hj).2
    unfold passes at hfail
    rw [total_leaf (by omega), show j + sigs.length - 1 + 1 - sigs.length = j by omega,
      content_of_getElem? hjp, decide_eq_false_iff_not,
      accepts_single (hmem p (mem_of_getElem? hjp))] at hfail
    simpa [hlen] using hfail
  · rw [sum_map_filterMap _ _ hat, ← errorOf_sum_content, map_sum]
    refine sum_descend hpos (fun i hi => ?_) hdescend
    rw [← map_total (errorOf B domain msg mapping)]
    exact (of_decide_eq_true hi).2.1
  · intro hacc
    have hroot : passes B domain msg mapping sigs 0 = true := by
      unfold passes
      rw [total_zero hpos]
      exact decide_eq_true hacc
    obtain ⟨k, hk⟩ : ∃ k, 2 * sigs.length - 1 = k + 1 := ⟨2 * sigs.length - 2, by omega⟩
    rw [hk] at hdescend
    unfold descend at hdescend
    rw [if_pos hroot] at hdescend
    unfold descend at hdescend
    cases hdescend
    rfl
  · intro hlarge p hp
    obtain ⟨j, hj, rfl⟩ := getElem_of_mem hp
    refine mem_filterMap.mpr ⟨j, mem_of_descend hpos (fun i => ?_) hdescend hj,
      getElem?_eq_getElem hj⟩
    exact decide_eq_false fun hacc => absurd hacc.1 (by omega)
  · unfold verify
    rw [hsearch, hnodes.2 0 le_rfl (by omega)]
    unfold treeNode
    rw [total_zero hpos]
    change (if (leaves.filterMap (sigs[·]?)).isEmpty = true then _ else _) = _
    split
    next hempty => rw [if_pos (by simpa using hempty)]
    next hempty => rw [if_neg (by simpa using hempty)]

end AggregationTree

/-! ## The contract of `new` -/

namespace BlsSignatureCollection

variable {nonValidator sigsMap : List (N × S)}

/-- The first loop keeps the different pairs, one for each node. -/
theorem collect_spec {sigsMap' nonValidator' : List (N × S)} (hnodup : (sigsMap.map Prod.fst).Nodup)
    (h : collect mapping sigs sigsMap nonValidator = .ok (sigsMap', nonValidator')) :
    (sigsMap'.map Prod.fst).Nodup ∧ (∀ p, p ∈ sigsMap' ↔ p ∈ sigsMap ∨ p ∈ sigs) ∧
      (nonValidator' = [] ↔ nonValidator = [] ∧ ∀ p ∈ sigs, p.1 ∈ mapping.map.map Prod.fst) := by
  induction sigs generalizing sigsMap nonValidator with
  | nil =>
    cases h
    exact ⟨hnodup, by simp, by simp⟩
  | cons p sigs ih =>
    obtain ⟨nodeId, sig⟩ := p
    have hnon : ∀ rest : List (N × S),
        ((if nodeId ∈ mapping.map.map Prod.fst then nonValidator
          else nonValidator ++ [(nodeId, sig)]) = [] ∧
          ∀ q ∈ rest, q.1 ∈ mapping.map.map Prod.fst) ↔
        nonValidator = [] ∧ ∀ q ∈ (nodeId, sig) :: rest, q.1 ∈ mapping.map.map Prod.fst := by
      intro rest
      rw [forall_mem_cons]
      split
      next hin => exact ⟨fun hr => ⟨hr.1, hin, hr.2⟩, fun hr => ⟨hr.1, hr.2.2⟩⟩
      next hout => exact ⟨fun hr => by simp at hr, fun hr => absurd hr.2.1 hout⟩
    unfold collect at h
    dsimp only at h
    split at h
    next hget =>
      obtain ⟨hnd, hmem, hnv⟩ := ih (nodup_set hnodup) h
      refine ⟨hnd, fun q => ?_, hnv.trans (hnon sigs)⟩
      have hnot : ∀ q ∈ sigsMap, q.1 ≠ nodeId := by
        rintro ⟨v, s⟩ hq rfl
        rw [get?_of_mem hnodup hq] at hget
        cases hget
      rw [hmem, Assoc.mem_set, mem_cons]
      constructor
      · rintro ((rfl | hq) | hq)
        · exact .inr (.inl rfl)
        · exact .inl hq.1
        · exact .inr (.inr hq)
      · rintro (hq | rfl | hq)
        · exact .inl (.inr ⟨hq, hnot q hq⟩)
        · exact .inl (.inl rfl)
        · exact .inr hq
    next entry hget =>
      split at h
      next heq =>
        subst heq
        obtain ⟨hnd, hmem, hnv⟩ := ih hnodup h
        refine ⟨hnd, fun q => ?_, hnv.trans (hnon sigs)⟩
        rw [hmem, mem_cons]
        constructor
        · rintro (hq | hq)
          · exact .inl hq
          · exact .inr (.inr hq)
        · rintro (hq | rfl | hq)
          · exact .inl hq
          · exact .inl (mem_of_get? hget)
          · exact .inr hq
      · cases h

variable {e : SignatureCollectionError N S}

/-- The first loop only stops at a node with two signatures. -/
theorem collect_ne_error
    (hagree : ∀ p ∈ sigsMap ++ sigs, ∀ q ∈ sigsMap ++ sigs, p.1 = q.1 → p.2 = q.2) :
    collect mapping sigs sigsMap nonValidator ≠ .error e := by
  induction sigs generalizing sigsMap nonValidator with
  | nil =>
    unfold collect
    simp
  | cons p sigs ih =>
    obtain ⟨nodeId, sig⟩ := p
    unfold collect
    dsimp only
    split
    · have hsub : ∀ p ∈ Assoc.set sigsMap nodeId sig ++ sigs,
          p ∈ sigsMap ++ (nodeId, sig) :: sigs := by
        intro p hp
        rcases mem_append.mp hp with hp | hp
        · rcases mem_set.mp hp with rfl | hp
          · simp
          · simp [hp.1]
        · simp [hp]
      exact ih fun p hp q hq => hagree p (hsub p hp) q (hsub q hq)
    next entry hget =>
      have hentry : entry = sig := hagree (nodeId, entry) (by simp [mem_of_get? hget])
        (nodeId, sig) (by simp) rfl
      rw [if_pos hentry]
      exact ih fun p hp q hq => hagree p (by simp at hp ⊢; tauto) q (by simp at hq ⊢; tauto)

theorem eq_conflicting_of_collect (h : collect mapping sigs sigsMap nonValidator = .error e) :
    ∃ nodeId entry sig, e = .conflictingSignatures nodeId entry sig := by
  fun_induction collect mapping sigs sigsMap nonValidator with
  | case1 => cases h
  | case2 _ _ _ _ _ _ _ ih => exact ih h
  | case3 _ _ _ _ _ _ _ ih => exact ih h
  | case4 nodeId sig _ _ _ entry =>
    cases h
    exact ⟨nodeId, entry, sig, rfl⟩

/-- The aggregate of signatures of different validators. -/
def aggregateOf (mapping : ValidatorMapping N K) (pairs : List (N × S)) :
    BlsSignatureCollection S :=
  (nodeOf mapping (∑ j ∈ Finset.range pairs.length, content pairs j)).intoCollection

theorem new_cases (B : Scheme K S) (hashOrder : MapOrder (N × S)) (domain msg : Bytes)
    (mapping : ValidatorMapping N K) {sigs : List (N × S)} (hne : sigs ≠ []) :
    (∃ nodeId entry sig, new B hashOrder domain sigs mapping msg
        = .ok (.error (.conflictingSignatures nodeId entry sig)) ∧
      ¬ ∀ p ∈ sigs, ∀ q ∈ sigs, p.1 = q.1 → p.2 = q.2) ∨
    (∃ l, new B hashOrder domain sigs mapping msg = .ok (.error (.nodeIdNotInMapping l)) ∧
      ¬ ∀ p ∈ sigs, p.1 ∈ mapping.map.map Prod.fst) ∨
    ∃ pairs blamed, (pairs.map Prod.fst).Nodup ∧ (∀ p, p ∈ pairs ↔ p ∈ sigs) ∧
      (∀ p ∈ pairs, p.1 ∈ mapping.map.map Prod.fst) ∧
      Verdict B domain msg mapping pairs blamed ∧
      new B hashOrder domain sigs mapping msg
        = .ok (if blamed = [] then .ok (aggregateOf mapping pairs)
          else .error (.invalidSignaturesCreate blamed)) := by
  cases hcollect : collect mapping sigs [] [] with
  | error e =>
    obtain ⟨nodeId, entry, sig, rfl⟩ := eq_conflicting_of_collect hcollect
    refine .inl ⟨nodeId, entry, sig, ?_, fun hagree => ?_⟩
    · unfold new
      rw [hcollect]
    · exact collect_ne_error (by simpa using hagree) hcollect
  | ok r =>
    obtain ⟨sigsMap, nonValidator⟩ := r
    have hempty : (([] : List (N × S)).map Prod.fst).Nodup := nodup_nil
    obtain ⟨hnodup, hmem, hnon⟩ := collect_spec hempty hcollect
    by_cases hvalidators : nonValidator = []
    · -- the tree is over the hash map, in its order
      have hall := (hnon.mp hvalidators).2
      have hperm := hashOrder.perm sigsMap
      have hpairs : ∀ p, p ∈ hashOrder.order sigsMap ↔ p ∈ sigs := by
        intro p
        rw [hperm.mem_iff, hmem]
        simp
      have hnodup' : ((hashOrder.order sigsMap).map Prod.fst).Nodup :=
        (hperm.map _).nodup_iff.mpr hnodup
      have hin : ∀ p ∈ hashOrder.order sigsMap, p.1 ∈ mapping.map.map Prod.fst :=
        fun p hp => hall p ((hpairs p).mp hp)
      have hne' : hashOrder.order sigsMap ≠ [] := by
        obtain ⟨p, hp⟩ := exists_mem_of_ne_nil sigs hne
        exact ne_nil_of_mem ((hpairs p).mpr hp)
      obtain ⟨nodes, hnew, hnodes⟩ := AggregationTree.new_spec hne' hnodup' hin
      obtain ⟨blamed, hverdict, hverify⟩ :=
        AggregationTree.verify_spec B domain msg hne' hnodup' hin hnodes
      refine .inr (.inr ⟨hashOrder.order sigsMap, blamed, hnodup', hpairs, hin, hverdict, ?_⟩)
      unfold new
      rw [hcollect]
      dsimp only
      rw [if_neg (by simp [hvalidators]), hnew]
      change (AggregationTree.verify B domain nodes mapping msg >>= _) = _
      rw [hverify]
      split
      · rfl
      · rfl
    · refine .inr (.inl ⟨nonValidator, ?_, fun hall => hvalidators (hnon.mpr ⟨rfl, hall⟩)⟩)
      unfold new
      rw [hcollect]
      dsimp only
      rw [if_pos (by simpa using hvalidators)]

variable {pairs : List (N × S)}

section

variable (hnodup : (pairs.map Prod.fst).Nodup)

include hnodup

/-- The counts of different nodes. -/
theorem counts_of_nodup (nodeId : N) :
    (∑ j ∈ Finset.range pairs.length, content pairs j).1 nodeId
      = if nodeId ∈ pairs.map Prod.fst then 1 else 0 := by
  rw [← countOf_apply, countOf_sum_content]
  split
  next hin => exact count_eq_one_of_mem hnodup hin
  next hout => exact count_eq_zero.mpr hout

theorem distinct_sum_content : Distinct (∑ j ∈ Finset.range pairs.length, content pairs j) := by
  intro nodeId
  rw [counts_of_nodup hnodup]
  split <;> omega

theorem mem_signersOf (hin : ∀ p ∈ pairs, p.1 ∈ mapping.map.map Prod.fst) (nodeId : N) :
    nodeId ∈ signersOf mapping (∑ j ∈ Finset.range pairs.length, content pairs j) ↔
      nodeId ∈ pairs.map Prod.fst := by
  unfold signersOf
  rw [mem_map]
  constructor
  · rintro ⟨e, he, rfl⟩
    have hcount := of_decide_eq_true (mem_filter.mp he).2
    rw [counts_of_nodup hnodup] at hcount
    by_contra hout
    rw [if_neg hout] at hcount
    omega
  · intro hmem
    obtain ⟨p, hp, rfl⟩ := mem_map.mp hmem
    obtain ⟨e, he, heq⟩ := mem_map.mp (hin p hp)
    refine ⟨e, mem_filter.mpr ⟨he, decide_eq_true ?_⟩, heq⟩
    rw [counts_of_nodup hnodup, heq, if_pos hmem]
    omega

theorem verify_aggregateOf (hne : pairs ≠ []) (hin : ∀ p ∈ pairs, p.1 ∈ mapping.map.map Prod.fst) :
    (aggregateOf mapping pairs).verify B domain mapping msg
      = if Accepts B domain msg mapping (∑ j ∈ Finset.range pairs.length, content pairs j) then
          .ok (signersOf mapping (∑ j ∈ Finset.range pairs.length, content pairs j))
        else .error .invalidSignaturesVerify := by
  exact verify_nodeOf (ValidatorMapping.ne_nil hne hin) (distinct_sum_content hnodup)

/-- The root of a tree verifies if its error is zero and its key is not the identity. -/
theorem accepts_sum_content (B : Scheme K S) (domain msg : Bytes) (mapping : ValidatorMapping N K)
    (hmem : ∀ p, p ∈ pairs ↔ p ∈ sigs) :
    Accepts B domain msg mapping (∑ j ∈ Finset.range pairs.length, content pairs j) ↔
      mapping.map.length ≤ MAX_SIGNERS_LEN ∧ (pairs.map (errorAt B domain msg mapping)).sum = 0 ∧
        aggregateKey mapping (sigs.map Prod.fst) ≠ 0 := by
  have hkey : keyOf mapping (∑ j ∈ Finset.range pairs.length, content pairs j).1
      = aggregateKey mapping (sigs.map Prod.fst) := by
    refine keyOf_eq_aggregateKey fun v => ?_
    rw [counts_of_nodup hnodup]
    simp only [mem_map, hmem]
  unfold Accepts
  rw [errorOf_sum_content, hkey]

end

/-- Signatures are keys times a number, and verify under the key they are. -/
def sample : Scheme ℤ ℤ where
  image _ := AddMonoidHom.id ℤ

def inOrder (α : Type) : MapOrder α where
  order := id
  perm _ := .rfl

/-- Two validators whose keys are inverse to each other. -/
def opposite : ValidatorMapping ℕ ℤ where
  map := [(0, 1), (1, -1)]
  nodup := by decide

end BlsSignatureCollection

end MonadBft.Bls
