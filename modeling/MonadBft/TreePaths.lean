import MonadBft.Frontier
import MonadBft.TreeIndex

/-!
# Paths to the root of the block tree

`Path` are the blocks from the root to a block of the tree, which the walks of the source
follow. `Integrity` is the invariant of the block tree. Along a path rounds grow, so a
path has at most as many blocks as the tree (`length_path_le`), and if it ends in a
coherent block all its blocks are coherent (`coherent_path`).

A commit may leave a coherent block whose parent is deleted. The parent is then too old
to be on a path to the root ever again, which is the third case of `CoherentParent`.
-/

set_option linter.unusedSectionVars false

namespace MonadBft

open List BlockTreeEntry

variable {T : Types} {env : Env T}

/-! ## Paths -/

namespace BlockTree

variable {B : ConsensusFullBlock env → Prop} {bt bt' : BlockTree env} {id : T.BlockId}
  {entry : BlockTreeEntry env} {path : List (ConsensusFullBlock env)} {b : ConsensusFullBlock env}
  {fuel : ℕ} {x : T.BlockId}

/-- The blocks that may be added to a tree with a given root: the QC of a block is older
than the block and not older than the parent, which may be the root. -/
structure Fits (B : ConsensusFullBlock env → Prop) (root : RootInfo T) : Prop where
  collisionFree : ∀ b c, B b → B c → b.getId = c.getId → b.header = c.header
  parentRound_lt : ∀ b, B b → b.getParentRound < b.getBlockRound
  parent_le : ∀ b c, B b → B c → b.getParentId = c.getId → c.getBlockRound ≤ b.getParentRound
  root_le : ∀ b, B b → b.getParentId = root.blockId → root.round ≤ b.getParentRound
  root_eq : ∀ b, B b → b.getId = root.blockId → b.getBlockRound = root.round

/-- The blocks from the root, without it, to a block. -/
inductive Path (bt : BlockTree env) : T.BlockId → List (ConsensusFullBlock env) → Prop
  | child {id : T.BlockId} {entry : BlockTreeEntry env} (hget : bt.tree.get? id = some entry)
      (hroot : entry.validatedBlock.getParentId = bt.root.blockId) :
      Path bt id [entry.validatedBlock]
  | extend {id : T.BlockId} {entry : BlockTreeEntry env} {path : List (ConsensusFullBlock env)}
      (hget : bt.tree.get? id = some entry)
      (hroot : entry.validatedBlock.getParentId ≠ bt.root.blockId)
      (hpath : Path bt entry.validatedBlock.getParentId path) :
      Path bt id (path ++ [entry.validatedBlock])

theorem path_of_walkToRoot {blocks res : List (ConsensusFullBlock env)}
    (h : bt.walkToRoot fuel id blocks = some res) :
    ∃ path, bt.Path id path ∧ res = path ++ blocks := by
  fun_induction walkToRoot bt fuel id blocks with
  | case1 => cases h
  | case2 => cases h
  | case3 _ _ _ _ hget _ hroot => exact ⟨_, .child hget hroot, (Option.some.inj h).symm⟩
  | case4 _ _ _ _ hget _ hroot ih =>
    obtain ⟨path, hpath, rfl⟩ := ih h
    exact ⟨_, .extend hget hroot hpath, (append_cons _ _ _)⟩

theorem Path.walkToRoot (hpath : bt.Path id path) (hfuel : path.length ≤ fuel)
    (blocks : List (ConsensusFullBlock env)) :
    bt.walkToRoot fuel id blocks = some (path ++ blocks) := by
  induction hpath generalizing fuel blocks with
  | child hget hroot =>
    obtain ⟨fuel, rfl⟩ : ∃ m, fuel = m + 1 := ⟨fuel - 1, by simp at hfuel; omega⟩
    simp [BlockTree.walkToRoot, hget, hroot]
  | @extend id entry path hget hroot hpath ih =>
    obtain ⟨fuel, rfl⟩ : ∃ m, fuel = m + 1 := ⟨fuel - 1, by simp at hfuel; omega⟩
    have hlen : path.length ≤ fuel := by simpa using hfuel
    simp [BlockTree.walkToRoot, hget, hroot, ih hlen]

/-- A commit that goes through has walked a path to the root. -/
theorem path_of_commitPath {tree : Tree env} {commit : List (ConsensusFullBlock env)}
    {res : List (ConsensusFullBlock env) × Tree env}
    (hsub : ∀ {x e}, tree.get? x = some e → bt.tree.get? x = some e)
    (hget : bt.tree.get? id = some entry)
    (h : BlockTree.commitPath bt.root.blockId fuel tree entry commit = .ok res) :
    ∃ path, bt.Path id path := by
  fun_induction BlockTree.commitPath bt.root.blockId fuel tree entry commit generalizing id with
  | case2 =>
    next hroot => exact ⟨_, .child hget hroot⟩
  | case5 _ _ _ _ _ _ hroot _ _ hremove =>
    rename_i ih
    obtain ⟨hparent, hentries⟩ := Tree.remove_ok hremove
    obtain ⟨path, hpath⟩ := ih (fun h => hsub (Tree.get?_of_filter_some hentries h))
      (hsub hparent.symm) h
    exact ⟨_, .extend hget hroot hpath⟩
  | _ => cases h

/-- A path ends in the block it leads to. -/
theorem Path.eq_append (hpath : bt.Path id path) :
    ∃ entry init, bt.tree.get? id = some entry ∧ path = init ++ [entry.validatedBlock] := by
  cases hpath with
  | child hget _ => exact ⟨_, [], hget, rfl⟩
  | extend hget _ _ => exact ⟨_, _, hget, rfl⟩

theorem Path.get? (hpath : bt.Path id path) (hb : b ∈ path) :
    ∃ entry, bt.tree.get? b.getId = some entry ∧ entry.validatedBlock = b := by
  have hself : ∀ {id : T.BlockId} {entry : BlockTreeEntry env}, bt.tree.get? id = some entry →
      bt.tree.get? entry.validatedBlock.getId = some entry := by
    intro id entry hget
    rw [show entry.validatedBlock.getId = id from (Tree.of_get? hget).2]
    exact hget
  induction hpath with
  | child hget _ =>
    obtain rfl := mem_singleton.mp hb
    exact ⟨_, hself hget, rfl⟩
  | extend hget _ _ ih =>
    rcases mem_append.mp hb with hb | hb
    · exact ih hb
    · obtain rfl := mem_singleton.mp hb
      exact ⟨_, hself hget, rfl⟩

/-- A path leads to each of its blocks. -/
theorem Path.take {pre post : List (ConsensusFullBlock env)} (hpath : bt.Path id path)
    (h : path = pre ++ b :: post) : bt.Path b.getId (pre ++ [b]) := by
  induction hpath generalizing post with
  | child hget hroot =>
    obtain ⟨rfl, rfl, rfl⟩ : pre = [] ∧ b = _ ∧ post = [] := by
      simpa [singleton_eq_append_iff] using h
    obtain ⟨-, rfl⟩ := Tree.of_get? hget
    exact .child hget hroot
  | extend hget hroot hpath ih =>
    rcases eq_nil_or_concat post with rfl | ⟨post', x, rfl⟩
    · obtain ⟨rfl, hlast⟩ := append_inj' h rfl
      obtain rfl := singleton_injective hlast
      obtain ⟨-, rfl⟩ := Tree.of_get? hget
      exact .extend hget hroot hpath
    · rw [concat_eq_append, ← cons_append, ← append_assoc] at h
      exact ih (append_inj' h rfl).1

/-- The blocks before the last one are the path to its parent. -/
theorem Path.parent {pre : List (ConsensusFullBlock env)} (hpath : bt.Path id path)
    (h : path = pre ++ [b]) : b.getParentId = bt.root.blockId ∨ bt.Path b.getParentId pre := by
  cases hpath with
  | child hget hroot =>
    obtain ⟨-, rfl⟩ : pre = [] ∧ b = _ := by simpa [singleton_eq_append_iff] using h
    exact .inl hroot
  | extend hget hroot hpath =>
    obtain ⟨rfl, hlast⟩ := append_inj' h rfl
    obtain rfl := singleton_injective hlast
    exact .inr hpath

/-! ## Marking a block coherent -/

/-- The tree with a block marked coherent. -/
def markCoherent (bt : BlockTree env) (id : T.BlockId) : BlockTree env :=
  { bt with tree := bt.tree.update id (setCoherent true) }

theorem get?_markCoherent (x : T.BlockId) : (bt.markCoherent id).tree.get? x =
    (bt.tree.get? x).map fun e => if e.getId = id then e.setCoherent true else e :=
  Tree.get?_update (Tree.keepsBlock_setCoherent true) x

theorem get?_markCoherent_of_some (id : T.BlockId) (hget : bt.tree.get? x = some entry) :
    ∃ entry', (bt.markCoherent id).tree.get? x = some entry' ∧
      entry'.validatedBlock = entry.validatedBlock ∧
      entry'.childrenBlocks = entry.childrenBlocks ∧
      entry'.isCoherent = (decide (x = id) || entry.isCoherent) := by
  refine ⟨_, by rw [get?_markCoherent, hget, Option.map_some], ?_⟩
  rw [(Tree.of_get? hget).2]
  split
  next heq => simp [setCoherent, heq]
  next hne => simp [hne]

theorem children_markCoherent : (bt.markCoherent id).children = bt.children := by
  funext x
  have hsame : ((bt.markCoherent id).tree.get? x).map childrenBlocks =
      (bt.tree.get? x).map childrenBlocks := by
    rw [get?_markCoherent, Option.map_map]
    congr 1
    funext e
    rw [Function.comp_apply]
    split <;> rfl
  unfold children
  rw [hsame]
  rfl

theorem Path.markCoherent (hpath : bt.Path x path) : (bt.markCoherent id).Path x path := by
  induction hpath with
  | child hget hroot =>
    obtain ⟨entry', hget', hblock, -⟩ := get?_markCoherent_of_some id hget
    rw [← hblock] at hroot ⊢
    exact .child hget' hroot
  | extend hget hroot _ ih =>
    obtain ⟨entry', hget', hblock, -⟩ := get?_markCoherent_of_some id hget
    rw [← hblock] at hroot ih ⊢
    exact .extend hget' hroot ih

theorem isCoherent_markCoherent (h : bt.isCoherent x = true) :
    (bt.markCoherent id).isCoherent x = true := by
  unfold isCoherent at h ⊢
  by_cases hroot : x = bt.root.blockId
  · exact if_pos hroot
  rw [if_neg hroot] at h
  rw [if_neg (show x ≠ (bt.markCoherent id).root.blockId from hroot)]
  split at h
  next entry hget =>
    obtain ⟨entry', hget', -, -, hcoh⟩ := get?_markCoherent_of_some id hget
    rw [hget']
    simp only [hcoh, h, Bool.or_true]
  · cases h

theorem isCoherent_markCoherent_self (hget : bt.tree.get? id = some entry) :
    (bt.markCoherent id).isCoherent id = true := by
  unfold isCoherent
  split
  · rfl
  · obtain ⟨entry', hget', -, -, hcoh⟩ := get?_markCoherent_of_some id hget
    simp only [hget', hcoh, decide_true, Bool.true_or]

/-! ## The invariant -/

/-- The parent of a coherent block is the root or coherent, unless it was deleted as too old
to extend the root. -/
def CoherentParent (B : ConsensusFullBlock env → Prop) (bt : BlockTree env)
    (b : ConsensusFullBlock env) : Prop :=
  b.getParentId = bt.root.blockId ∨
  (∃ e ∈ bt.tree.entries, e.getId = b.getParentId ∧ e.isCoherent = true) ∨
  ∀ c, B c → c.getId = b.getParentId → c.getParentRound < bt.root.round

structure Integrity (B : ConsensusFullBlock env → Prop) (bt : BlockTree env) : Prop where
  fits : Fits B bt.root
  blocks : ∀ e ∈ bt.tree.entries, B e.validatedBlock
  above : ∀ e ∈ bt.tree.entries, bt.root.round < e.validatedBlock.getBlockRound
  indexed : bt.tree.Indexed
  rootChildren : bt.rootChildren.Perm (bt.tree.childrenOf bt.root.blockId)
  children : ∀ e ∈ bt.tree.entries, e.childrenBlocks.Perm (bt.tree.childrenOf e.getId)
  coherent : ∀ e ∈ bt.tree.entries, e.isCoherent = true → CoherentParent B bt e.validatedBlock

theorem integrity_new {root : RootInfo T} (h : Fits B root) : Integrity B (new root) where
  fits := h
  blocks _ he := by cases he
  above _ he := by cases he
  indexed := Tree.indexed_empty
  rootChildren := List.Perm.nil
  children _ he := by cases he
  coherent _ he := by cases he

namespace Integrity

variable (hbt : Integrity B bt) {init : List (ConsensusFullBlock env)}

include hbt

theorem block_of_get? (hget : bt.tree.get? id = some entry) : B entry.validatedBlock :=
  hbt.blocks entry (Tree.of_get? hget).1

theorem ne_root (he : entry ∈ bt.tree.entries) : entry.getId ≠ bt.root.blockId := by
  intro hid
  have heq := hbt.fits.root_eq _ (hbt.blocks entry he) hid
  have habove := hbt.above entry he
  omega

theorem block_of_path (hpath : bt.Path id path) (hb : b ∈ path) : B b := by
  obtain ⟨entry, hget, rfl⟩ := hpath.get? hb
  exact hbt.block_of_get? hget

/-- Rounds grow along a path. -/
theorem pairwise_path (hpath : bt.Path id path) :
    path.Pairwise fun a b => a.getBlockRound < b.getBlockRound := by
  induction hpath with
  | child hget _ => exact pairwise_singleton _ _
  | @extend id entry path hget hroot hpath ih =>
    obtain ⟨parent, init, hparent, rfl⟩ := hpath.eq_append
    have hblock := hbt.block_of_get? hget
    have hlt := hbt.fits.parentRound_lt _ hblock
    have hle := hbt.fits.parent_le _ _ hblock (hbt.block_of_get? hparent)
      (Tree.of_get? hparent).2.symm
    refine pairwise_append.mpr ⟨ih, pairwise_singleton _ _, ?_⟩
    intro a ha b hb
    obtain rfl := mem_singleton.mp hb
    rcases mem_append.mp ha with ha | ha
    · have hinit := (pairwise_append.mp ih).2.2 a ha _ (mem_singleton_self _)
      omega
    · obtain rfl := mem_singleton.mp ha
      omega

theorem nodup_path (hpath : bt.Path id path) : (path.map ConsensusFullBlock.getId).Nodup := by
  refine pairwise_map.mpr ((hbt.pairwise_path hpath).imp_of_mem ?_)
  intro a b ha hb hlt heq
  have hheader := hbt.fits.collisionFree a b (hbt.block_of_path hpath ha)
    (hbt.block_of_path hpath hb) heq
  unfold ConsensusFullBlock.getBlockRound at hlt
  rw [hheader] at hlt
  exact lt_irrefl _ hlt

theorem ne_last_of_path {a last : ConsensusFullBlock env} (hpath : bt.Path id (init ++ [last]))
    (ha : a ∈ init) : a.getId ≠ last.getId := by
  have hnodup := hbt.nodup_path hpath
  rw [map_append, map_singleton] at hnodup
  exact (nodup_append.mp hnodup).2.2 _ (mem_map_of_mem ha) _ (mem_singleton_self _)

/-- A block of the path to `last` is too old to extend `last`. -/
theorem parentRound_lt_last {last : ConsensusFullBlock env} (hpath : bt.Path id (init ++ [last]))
    (hb : b ∈ init ++ [last]) : b.getParentRound < last.getBlockRound := by
  have hlt := hbt.fits.parentRound_lt b (hbt.block_of_path hpath hb)
  rcases mem_append.mp hb with hb | hb
  · have hround := (pairwise_append.mp (hbt.pairwise_path hpath)).2.2 b hb last
      (mem_singleton_self last)
    exact hlt.trans hround
  · rwa [← mem_singleton.mp hb]

theorem length_path_le (hpath : bt.Path id path) : path.length ≤ bt.size := by
  have hsub : path.map ConsensusFullBlock.getId ⊆ bt.tree.entries.map getId := by
    intro x hx
    obtain ⟨b, hb, rfl⟩ := mem_map.mp hx
    obtain ⟨entry, hget, -⟩ := hpath.get? hb
    exact mem_map.mpr ⟨entry, Tree.of_get? hget⟩
  have hlen := (subperm_of_subset (hbt.nodup_path hpath) hsub).length_le
  rwa [length_map, length_map] at hlen

/-- No block of a path is older than the root. -/
theorem root_le_path (hpath : bt.Path id path) (hb : b ∈ path) :
    bt.root.round ≤ b.getParentRound := by
  induction hpath with
  | child hget hroot =>
    obtain rfl := mem_singleton.mp hb
    exact hbt.fits.root_le _ (hbt.block_of_get? hget) hroot
  | @extend id entry path hget hroot hpath ih =>
    rcases mem_append.mp hb with hb | hb
    · exact ih hb
    obtain rfl := mem_singleton.mp hb
    obtain ⟨parent, init, hparent, rfl⟩ := hpath.eq_append
    have hle := hbt.fits.parent_le _ _ (hbt.block_of_get? hget) (hbt.block_of_get? hparent)
      (Tree.of_get? hparent).2.symm
    have habove := hbt.above parent (Tree.of_get? hparent).1
    omega

/-- The walk to the root finds the path to a block of the tree. -/
theorem getBlocksOnPathFromRoot_eq_some (hne : id ≠ bt.root.blockId) :
    bt.getBlocksOnPathFromRoot id = some path ↔ bt.Path id path := by
  unfold getBlocksOnPathFromRoot
  rw [if_neg hne]
  constructor
  · intro h
    obtain ⟨p, hp, rfl⟩ := path_of_walkToRoot h
    rwa [append_nil]
  · intro hpath
    have hlen := hbt.length_path_le hpath
    rw [hpath.walkToRoot (by omega), append_nil]

/-! ### Coherency along paths -/

theorem isCoherent_of_mem (he : entry ∈ bt.tree.entries) :
    bt.isCoherent entry.getId = entry.isCoherent := by
  unfold isCoherent
  rw [if_neg (hbt.ne_root he), hbt.indexed.get?_of_mem he]

/-- A coherent block with a path to the root has only coherent blocks on it. -/
theorem coherent_path (hpath : bt.Path id path) (hid : bt.isCoherent id = true) :
    ∀ b ∈ path, bt.isCoherent b.getId = true := by
  induction hpath with
  | child hget _ =>
    intro b hb
    obtain rfl := mem_singleton.mp hb
    obtain ⟨-, rfl⟩ := Tree.of_get? hget
    exact hid
  | @extend id entry path hget hroot hpath ih =>
    obtain ⟨hmem, rfl⟩ := Tree.of_get? hget
    intro b hb
    rcases mem_append.mp hb with hb | hb
    · refine ih ?_ b hb
      rw [hbt.isCoherent_of_mem hmem] at hid
      rcases hbt.coherent entry hmem hid with heq | ⟨parent, hparent, heq, hcoh⟩ | hold
      · exact absurd heq hroot
      · rw [← heq, hbt.isCoherent_of_mem hparent]
        exact hcoh
      · -- a block that is too old to extend the root is on no path
        obtain ⟨parent, init, hparent, rfl⟩ := hpath.eq_append
        have hlt := hold _ (hbt.block_of_get? hparent) (Tree.of_get? hparent).2
        have hle := hbt.root_le_path hpath
          (mem_append_right init (mem_singleton_self parent.validatedBlock))
        omega
    · obtain rfl := mem_singleton.mp hb
      exact hid

theorem coherentParent_of_isCoherent (h : bt.isCoherent b.getParentId = true) :
    CoherentParent B bt b := by
  by_cases hroot : b.getParentId = bt.root.blockId
  · exact .inl hroot
  unfold isCoherent at h
  rw [if_neg hroot] at h
  split at h
  next parent hparent =>
    obtain ⟨hmem, hid⟩ := Tree.of_get? hparent
    exact .inr (.inl ⟨parent, hmem, hid, h⟩)
  · cases h

end Integrity

end BlockTree

end MonadBft
