import MonadBft.Ideal
import MonadBft.TreePaths

/-!
# Integrity of the block tree

`add`, `tryUpdateCoherency` and `prune` keep the invariant of the block tree, whatever the
order in which blocks arrive (`Integrity.add`, `Integrity.tryUpdateCoherency`,
`Integrity.prune`): children are listed exactly, the payload index is exact, and a
coherent block has only coherent blocks on its path to the root. No walk of the source is
endless, and no assertion fails but one: `prune` needs a path to the root.

That path is not implied by coherency. `prune` deletes blocks by the round of their QC,
which for a block that was proposed again is not the round of the parent, so it can leave
a coherent block whose parent it deletes (`prune_orphan_panics`).

What `prune` returns in a run is one chain (`Reached.commits_lead`).
-/

namespace MonadBft

open List BlockTree ConsensusFullBlock

variable {T : Types} {env : Env T}

namespace BlockTree

variable {B : ConsensusFullBlock env → Prop} {bt bt' : BlockTree env} {id : T.BlockId}
  {entry : BlockTreeEntry env} {path : List (ConsensusFullBlock env)} {queue : List T.BlockId}
  {c : T.BlockId}

namespace Integrity

variable (hbt : Integrity B bt)

include hbt

/-! ## Adding a block -/

variable {block : ConsensusFullBlock env}

theorem of_insert {tree : Tree env} (hblock : B block)
    (habove : bt.root.round < block.getBlockRound) (hinsert : bt.tree.insert block = .ok tree)
    (hindexed : tree.Indexed) :
    Integrity B { bt with
      tree
      rootChildren :=
        if block.getParentId = bt.root.blockId then bt.rootChildren ++ [block.getId]
        else bt.rootChildren } := by
  have hself : block.getParentId ≠ block.getId := by
    intro heq
    have hle := hbt.fits.parent_le block block hblock hblock heq
    have hlt := hbt.fits.parentRound_lt block hblock
    omega
  have hmem : ∀ {e}, e ∈ tree.entries ↔ ∃ e₀ ∈ bt.tree.newEntry block :: bt.tree.entries,
      (if e₀.getId = block.getParentId then e₀.addChild block.getId else e₀) = e := by
    obtain ⟨payloads, rfl⟩ := Tree.insert_ok hinsert
    exact Tree.mem_update
  have hkeep : Tree.KeepsBlock (BlockTreeEntry.addChild block.getId : BlockTreeEntry env → _) :=
    Tree.keepsBlock_addChild block.getId
  constructor
  case fits => exact hbt.fits
  case indexed => exact hindexed
  case blocks =>
    intro e he
    obtain ⟨e₀, he₀, rfl⟩ := hmem.mp he
    rw [hkeep.ite]
    rcases mem_cons.mp he₀ with rfl | he₀
    · exact hblock
    · exact hbt.blocks e₀ he₀
  case above =>
    intro e he
    obtain ⟨e₀, he₀, rfl⟩ := hmem.mp he
    rw [hkeep.ite]
    rcases mem_cons.mp he₀ with rfl | he₀
    · exact habove
    · exact hbt.above e₀ he₀
  case rootChildren =>
    rw [Tree.childrenOf_insert hinsert]
    split
    · exact (perm_append_singleton _ _).trans (hbt.rootChildren.cons _)
    · exact hbt.rootChildren
  case children =>
    intro e he
    obtain ⟨e₀, he₀, rfl⟩ := hmem.mp he
    rw [hkeep.ite_getId, Tree.childrenOf_insert hinsert]
    rcases mem_cons.mp he₀ with rfl | he₀
    · have hid : (bt.tree.newEntry block).getId = block.getId := rfl
      rw [hid, if_neg (Ne.symm hself), if_neg hself]
      exact List.Perm.refl _
    by_cases hparent : e₀.getId = block.getParentId
    · rw [if_pos hparent, if_pos hparent.symm]
      exact (perm_append_singleton _ _).trans ((hbt.children e₀ he₀).cons _)
    · rw [if_neg hparent, if_neg (Ne.symm hparent)]
      exact hbt.children e₀ he₀
  case coherent =>
    intro e he hcoh
    obtain ⟨e₀, he₀, rfl⟩ := hmem.mp he
    have hcoherent : ∀ e₀ : BlockTreeEntry env,
        (if e₀.getId = block.getParentId then e₀.addChild block.getId else e₀).isCoherent =
          e₀.isCoherent := by
      intro e₀
      split <;> rfl
    rw [hcoherent] at hcoh
    rw [hkeep.ite]
    rcases mem_cons.mp he₀ with rfl | he₀
    · cases hcoh
    rcases hbt.coherent e₀ he₀ hcoh with hroot | ⟨parent, hparent, hid, hpc⟩ | hold
    · exact .inl hroot
    · refine .inr (.inl ⟨_, hmem.mpr ⟨parent, mem_cons_of_mem _ hparent, rfl⟩, ?_, ?_⟩)
      · rw [hkeep.ite_getId, hid]
      · rw [hcoherent, hpc]
    · exact .inr (.inr hold)

theorem add (hblock : B block) : ∃ bt', bt.add block = .ok bt' ∧ Integrity B bt' := by
  unfold BlockTree.add
  split
  next hvalid =>
    obtain ⟨hnew, habove⟩ := Bool.and_eq_true_iff.mp hvalid
    obtain ⟨tree, hinsert, hindexed⟩ := hbt.indexed.insert (Bool.not_eq_true' _ ▸ hnew)
    simp only [hinsert]
    exact ⟨_, rfl, hbt.of_insert hblock (of_decide_eq_true habove) hinsert hindexed⟩
  · exact ⟨bt, rfl, hbt⟩

/-! ## Updating coherency -/

theorem of_markCoherent (hget : bt.tree.get? id = some entry)
    (hparent : bt.isCoherent entry.validatedBlock.getParentId = true) :
    Integrity B (bt.markCoherent id) := by
  have hmem : ∀ {e}, e ∈ (bt.markCoherent id).tree.entries ↔ ∃ e₀ ∈ bt.tree.entries,
      (if e₀.getId = id then e₀.setCoherent true else e₀) = e := Tree.mem_update
  have hkeep : Tree.KeepsBlock (BlockTreeEntry.setCoherent true : BlockTreeEntry env → _) :=
    Tree.keepsBlock_setCoherent true
  have hchildren : ∀ x, (bt.markCoherent id).tree.childrenOf x = bt.tree.childrenOf x :=
    fun x => Tree.select_update hkeep
  constructor
  case fits => exact hbt.fits
  case indexed => exact hbt.indexed.update hkeep
  case blocks =>
    intro e he
    obtain ⟨e₀, he₀, rfl⟩ := hmem.mp he
    rw [hkeep.ite]
    exact hbt.blocks e₀ he₀
  case above =>
    intro e he
    obtain ⟨e₀, he₀, rfl⟩ := hmem.mp he
    rw [hkeep.ite]
    exact hbt.above e₀ he₀
  case rootChildren =>
    rw [hchildren]
    exact hbt.rootChildren
  case children =>
    intro e he
    obtain ⟨e₀, he₀, rfl⟩ := hmem.mp he
    rw [hchildren, hkeep.ite_getId]
    have hsame : (if e₀.getId = id then e₀.setCoherent true else e₀).childrenBlocks =
        e₀.childrenBlocks := by
      split <;> rfl
    rw [hsame]
    exact hbt.children e₀ he₀
  case coherent =>
    intro e he hcoh
    obtain ⟨e₀, he₀, rfl⟩ := hmem.mp he
    have hold : CoherentParent B bt e₀.validatedBlock := by
      split at hcoh
      next hid =>
        have hentry := hbt.indexed.get?_of_mem he₀
        rw [hid, hget] at hentry
        cases hentry
        exact hbt.coherentParent_of_isCoherent hparent
      · exact hbt.coherent e₀ he₀ hcoh
    rw [hkeep.ite]
    rcases hold with hroot | ⟨parent, hparent, hid, hpc⟩ | hold
    · exact .inl hroot
    · refine .inr (.inl ⟨_, hmem.mpr ⟨parent, hparent, rfl⟩, ?_, ?_⟩)
      · rw [hkeep.ite_getId, hid]
      · split
        · rfl
        · exact hpc
    · exact .inr (.inr hold)

/-! ## Traversals -/

theorem children_eq (he : entry ∈ bt.tree.entries) :
    bt.children entry.getId = entry.childrenBlocks := by
  unfold BlockTree.children
  rw [if_neg (hbt.ne_root he), hbt.indexed.get?_of_mem he]
  rfl

theorem mem_children (he : entry ∈ bt.tree.entries) :
    c ∈ bt.children entry.getId ↔
      ∃ e ∈ bt.tree.entries, e.validatedBlock.getParentId = entry.getId ∧ e.getId = c := by
  rw [hbt.children_eq he, (hbt.children entry he).mem_iff, Tree.mem_childrenOf]

/-- A traversal that starts in blocks of the tree and whose rest has the blocks with a
property, if all children have the property. -/
theorem frontier {p : ConsensusFullBlock env → Bool} (hnodup : (queue ++ bt.tree.select p).Nodup)
    (hqueue : ∀ x ∈ queue, ∃ e ∈ bt.tree.entries, e.getId = x)
    (hclosed : ∀ e ∈ bt.tree.entries,
      e.validatedBlock.getParentId ∈ queue ++ bt.tree.select p → p e.validatedBlock = true) :
    Frontier bt.children queue (bt.tree.select p) ∧
      queue.length + (bt.tree.select p).length ≤ bt.size := by
  have hentry : ∀ x ∈ queue ++ bt.tree.select p, ∃ e ∈ bt.tree.entries, e.getId = x := by
    intro x hx
    rcases mem_append.mp hx with hx | hx
    · exact hqueue x hx
    · obtain ⟨e, he, -, hid⟩ := Tree.mem_select.mp hx
      exact ⟨e, he, hid⟩
  refine ⟨⟨hnodup, ?_, ?_, ?_⟩, ?_⟩
  · intro x hx
    obtain ⟨e, he, rfl⟩ := hentry x hx
    rw [hbt.children_eq he]
    exact (hbt.children e he).nodup_iff.mpr hbt.indexed.select_nodup
  · intro x hx c hc
    obtain ⟨e, he, rfl⟩ := hentry x hx
    obtain ⟨child, hchild, hparent, rfl⟩ := (hbt.mem_children he).mp hc
    exact Tree.mem_select.mpr ⟨child, hchild, hclosed child hchild (hparent ▸ hx), rfl⟩
  · intro x hx y hy c hcx hcy
    obtain ⟨ex, hex, rfl⟩ := hentry x hx
    obtain ⟨ey, hey, rfl⟩ := hentry y hy
    obtain ⟨child, hchild, hparent, rfl⟩ := (hbt.mem_children hex).mp hcx
    obtain ⟨child', hchild', hparent', hid⟩ := (hbt.mem_children hey).mp hcy
    obtain rfl := hbt.indexed.eq_of_getId_eq hchild' hchild hid
    rw [← hparent, hparent']
  · have hsub : queue ++ bt.tree.select p ⊆ bt.tree.entries.map BlockTreeEntry.getId :=
      fun x hx => mem_map.mpr (hentry x hx)
    have hlen := (subperm_of_subset hnodup hsub).length_le
    rwa [length_append, length_map] at hlen

/-- From one block on. -/
theorem frontier_singleton (he : entry ∈ bt.tree.entries) : ∃ rest,
    Frontier bt.children [entry.getId] rest ∧ 1 + rest.length ≤ bt.size := by
  -- the rest has the blocks of higher rounds : children have a higher round than the parent
  refine ⟨bt.tree.select fun b =>
    decide (entry.validatedBlock.getBlockRound < b.getBlockRound), hbt.frontier ?_ ?_ ?_⟩
  · refine nodup_cons.mpr ⟨?_, hbt.indexed.select_nodup⟩
    intro hmem
    obtain ⟨e, he', hlt, hid⟩ := Tree.mem_select.mp hmem
    obtain rfl := hbt.indexed.eq_of_getId_eq he' he hid
    exact lt_irrefl _ (of_decide_eq_true hlt)
  · intro x hx
    exact ⟨entry, he, (mem_singleton.mp hx).symm⟩
  · intro e he' hparent
    have hround : ∀ e₀ ∈ bt.tree.entries, e₀.getId = e.validatedBlock.getParentId →
        e₀.validatedBlock.getBlockRound < e.validatedBlock.getBlockRound := by
      intro e₀ he₀ hid
      have hle := hbt.fits.parent_le _ _ (hbt.blocks e he') (hbt.blocks e₀ he₀) hid.symm
      have hlt := hbt.fits.parentRound_lt _ (hbt.blocks e he')
      omega
    refine decide_eq_true ?_
    rcases mem_append.mp hparent with hx | hx
    · exact hround entry he (mem_singleton.mp hx).symm
    · obtain ⟨e₀, he₀, hlt, hid⟩ := Tree.mem_select.mp hx
      exact (of_decide_eq_true hlt).trans (hround e₀ he₀ hid)

/-- From the children of the root on. -/
theorem frontier_root : ∃ rest,
    Frontier bt.children bt.rootChildren rest ∧ bt.rootChildren.length + rest.length ≤ bt.size := by
  refine ⟨bt.tree.select fun b => decide (b.getParentId ≠ bt.root.blockId), hbt.frontier ?_ ?_ ?_⟩
  · refine nodup_append.mpr ⟨?_, hbt.indexed.select_nodup, ?_⟩
    · exact hbt.rootChildren.nodup_iff.mpr hbt.indexed.select_nodup
    rintro x hx y hy rfl
    obtain ⟨e, he, hroot, rfl⟩ := Tree.mem_childrenOf.mp (hbt.rootChildren.mem_iff.mp hx)
    obtain ⟨e', he', hne, hid⟩ := Tree.mem_select.mp hy
    obtain rfl := hbt.indexed.eq_of_getId_eq he' he hid
    exact of_decide_eq_true hne hroot
  · intro x hx
    obtain ⟨e, he, -, hid⟩ := Tree.mem_childrenOf.mp (hbt.rootChildren.mem_iff.mp hx)
    exact ⟨e, he, hid⟩
  · -- a parent in the tree is not the root
    intro e he hparent
    refine decide_eq_true fun hroot => ?_
    rw [hroot] at hparent
    rcases mem_append.mp hparent with hx | hx
    · obtain ⟨e', he', -, hid⟩ := Tree.mem_childrenOf.mp (hbt.rootChildren.mem_iff.mp hx)
      exact hbt.ne_root he' hid
    · obtain ⟨e', he', -, hid⟩ := Tree.mem_select.mp hx
      exact hbt.ne_root he' hid

end Integrity

/-- A block whose coherency can be checked: it has a path to the root and its parent is
coherent. -/
def Ready (bt : BlockTree env) (id : T.BlockId) : Prop :=
  ∃ entry path, bt.tree.get? id = some entry ∧ bt.Path id path ∧
    bt.isCoherent entry.validatedBlock.getParentId = true

theorem Ready.markCoherent {x : T.BlockId} (h : bt.Ready x) : (bt.markCoherent id).Ready x := by
  obtain ⟨entry, path, hget, hpath, hcoh⟩ := h
  obtain ⟨entry', hget', hblock, -⟩ := get?_markCoherent_of_some id hget
  refine ⟨entry', path, hget', hpath.markCoherent, ?_⟩
  rw [hblock]
  exact isCoherent_markCoherent hcoh

/-- What the commit of another block than the root leaves: the root is that block, and the tree
has the blocks whose QC is not older. -/
structure Pruned (bt : BlockTree env) (id : T.BlockId) (commit : List (ConsensusFullBlock env))
    (bt' : BlockTree env) : Prop where
  path : bt.Path id commit
  root : ∃ entry, bt.tree.get? id = some entry ∧ bt'.root =
    { round := entry.validatedBlock.getBlockRound
      seqNum := entry.validatedBlock.getSeqNum
      epoch := entry.validatedBlock.header.epoch
      blockId := entry.validatedBlock.getId
      timestampNs := entry.validatedBlock.getTimestamp }
  entries : ∀ e, e ∈ bt'.tree.entries ↔
    e ∈ bt.tree.entries ∧ bt'.root.round ≤ e.validatedBlock.getParentRound

namespace Integrity

variable {check : CheckCoherency env}

section

variable (hbt : Integrity B bt)

include hbt

/-- The children of a block that became coherent can be checked. -/
theorem ready_child (hentry : bt.tree.get? id = some entry) (hpath : bt.Path id path)
    (hc : c ∈ bt.children id) : (bt.markCoherent id).Ready c := by
  obtain ⟨hmem, rfl⟩ := Tree.of_get? hentry
  obtain ⟨child, hchild, hparent, rfl⟩ := (hbt.mem_children hmem).mp hc
  obtain ⟨child', hget', hblock, -⟩ :=
    get?_markCoherent_of_some entry.getId (hbt.indexed.get?_of_mem hchild)
  rw [← hblock] at hparent
  refine ⟨child', path ++ [child'.validatedBlock], hget', .extend hget' ?_ ?_, ?_⟩
  · rw [hparent]
    exact hbt.ne_root hmem
  · rw [hparent]
    exact hpath.markCoherent
  · rw [hparent]
    exact isCoherent_markCoherent_self hentry

variable {fuel : ℕ} {tree : Tree env} {rest : List T.BlockId}

/-- Checking queued blocks and their children ends, without a failed assertion. -/
theorem updateQueue (hfrontier : Frontier bt.children queue rest)
    (hfuel : queue.length + rest.length ≤ fuel) (hready : ∀ x ∈ queue, bt.Ready x) :
    ∃ blocks bt', updateQueue check fuel queue bt = .ok (blocks, bt') ∧ Integrity B bt' := by
  induction fuel generalizing queue rest bt with
  | zero =>
    obtain rfl := length_eq_zero_iff.mp (show queue.length = 0 by omega)
    exact ⟨[], bt, rfl, hbt⟩
  | succ fuel ih =>
    cases queue with
    | nil => exact ⟨[], bt, rfl, hbt⟩
    | cons id queue =>
      obtain ⟨entry, path, hget, hpath, hparent⟩ := hready id mem_cons_self
      obtain ⟨hmem, hid⟩ := Tree.of_get? hget
      have hne : id ≠ bt.root.blockId := hid ▸ hbt.ne_root hmem
      have hblocks := (hbt.getBlocksOnPathFromRoot_eq_some hne).mpr hpath
      obtain ⟨last, init, hlast, rfl⟩ := hpath.eq_append
      rw [length_cons] at hfuel
      unfold updateQueue
      simp only [hblocks, List.getLast?_append, List.getLast?_singleton, Option.some_or]
      split
      · -- the block is coherent : its children are queued
        obtain ⟨entry', hget', -, hchildren, -⟩ := get?_markCoherent_of_some id hget
        have hkids : entry'.childrenBlocks = bt.children id := by
          rw [hchildren, ← hid, hbt.children_eq hmem]
        obtain ⟨rest', hfrontier', hlen⟩ := hfrontier.visit
        have hfrontier₁ : Frontier (bt.markCoherent id).children (queue ++ bt.children id) rest' := by
          rw [children_markCoherent]
          exact hfrontier'
        have hready' : ∀ x ∈ queue ++ bt.children id, (bt.markCoherent id).Ready x := by
          intro x hx
          rcases mem_append.mp hx with hx | hx
          · exact (hready x (mem_cons_of_mem _ hx)).markCoherent
          · exact hbt.ready_child hget hpath hx
        obtain ⟨blocks, bt', hrun, hbt'⟩ :=
          ih (hbt.of_markCoherent hget hparent) hfrontier₁ (by omega) hready'
        refine ⟨last.validatedBlock :: blocks, bt', ?_, hbt'⟩
        have htree : (bt.markCoherent id).tree =
            bt.tree.update id (BlockTreeEntry.setCoherent true) := rfl
        rw [Tree.setCoherent_eq hget]
        simp only [← htree, hget', hkids]
        rw [show ({ bt with tree := (bt.markCoherent id).tree } : BlockTree env) =
          bt.markCoherent id from rfl, hrun]
      · exact ih hbt hfrontier.skip (by omega) fun x hx => hready x (mem_cons_of_mem _ hx)

/-- The first incoherent block of a path can be checked. -/
theorem firstIncoherent {pre post : List (ConsensusFullBlock env)}
    (hpath : bt.Path id (pre ++ post)) (hpre : ∀ a ∈ pre, bt.isCoherent a.getId = true) :
    ∃ block?, bt.firstIncoherent post = .ok block? ∧
      ∀ block, block? = some block → bt.Ready block.getId := by
  induction post generalizing pre with
  | nil => exact ⟨none, rfl, fun _ h => by cases h⟩
  | cons b post ih =>
    obtain ⟨entry, hget, rfl⟩ := hpath.get? (mem_append_right pre mem_cons_self)
    unfold BlockTree.firstIncoherent
    simp only [hget]
    split
    next hcoh =>
      have hpath' : bt.Path id ((pre ++ [entry.validatedBlock]) ++ post) := by
        rwa [append_assoc, singleton_append]
      refine ih hpath' ?_
      intro a ha
      rcases mem_append.mp ha with ha | ha
      · exact hpre a ha
      · obtain rfl := mem_singleton.mp ha
        exact (hbt.isCoherent_of_mem (Tree.of_get? hget).1).trans hcoh
    · refine ⟨_, rfl, fun block hblock => ?_⟩
      cases hblock
      have htake := hpath.take rfl
      refine ⟨entry, pre ++ [entry.validatedBlock], hget, htake, ?_⟩
      rcases htake.parent rfl with hroot | hparent
      · exact if_pos hroot
      · obtain ⟨parent, init, hget', rfl⟩ := hparent.eq_append
        rw [← (Tree.of_get? hget').2]
        exact hpre _ (mem_append_right init (mem_singleton_self _))

theorem tryUpdateCoherency (check : CheckCoherency env) (id : T.BlockId) :
    ∃ blocks bt', bt.tryUpdateCoherency check id = .ok (blocks, bt') ∧ Integrity B bt' := by
  unfold BlockTree.tryUpdateCoherency
  by_cases hroot : id = bt.root.blockId
  · have hnil : bt.getBlocksOnPathFromRoot id = some [] := if_pos hroot
    rw [hnil]
    exact ⟨[], bt, rfl, hbt⟩
  cases hpath : bt.getBlocksOnPathFromRoot id with
  | none => exact ⟨[], bt, rfl, hbt⟩
  | some path =>
    have hpath' : bt.Path id ([] ++ path) := (hbt.getBlocksOnPathFromRoot_eq_some hroot).mp hpath
    obtain ⟨block?, hfirst, hready⟩ := hbt.firstIncoherent hpath' (fun _ ha => by cases ha)
    simp only [hfirst]
    cases block? with
    | none => exact ⟨[], bt, rfl, hbt⟩
    | some block =>
      have hblock := hready block rfl
      obtain ⟨entry, -, hget, -⟩ := hblock
      obtain ⟨hmem, hid⟩ := Tree.of_get? hget
      obtain ⟨rest, hfrontier, hlen⟩ := hbt.frontier_singleton hmem
      rw [hid] at hfrontier
      refine hbt.updateQueue hfrontier (by rw [length_singleton]; omega) fun x hx => ?_
      obtain rfl := mem_singleton.mp hx
      exact hready block rfl

/-! ## The high committable QC -/

theorem highCommittable (high : Option (QuorumCertificate T))
    (hfrontier : Frontier bt.children queue rest) (hfuel : queue.length + rest.length ≤ fuel)
    (hqueue : ∀ x ∈ queue, ∃ e ∈ bt.tree.entries, e.getId = x) :
    ∃ qc?, bt.highCommittable fuel queue high = .ok qc? := by
  induction fuel generalizing queue rest high with
  | zero =>
    obtain rfl := length_eq_zero_iff.mp (show queue.length = 0 by omega)
    exact ⟨high, rfl⟩
  | succ fuel ih =>
    cases queue with
    | nil => exact ⟨high, rfl⟩
    | cons id queue =>
      obtain ⟨entry, hmem, rfl⟩ := hqueue id mem_cons_self
      obtain ⟨rest', hfrontier', hlen⟩ := hfrontier.visit
      rw [hbt.children_eq hmem] at hfrontier' hlen
      rw [length_cons] at hfuel
      have hnext : ∀ high, ∃ qc?, bt.highCommittable fuel (queue ++ entry.childrenBlocks) high =
          .ok qc? := by
        intro high
        refine ih high hfrontier' (by omega) fun x hx => ?_
        rcases mem_append.mp hx with hx | hx
        · exact hqueue x (mem_cons_of_mem _ hx)
        · rw [← hbt.children_eq hmem] at hx
          obtain ⟨child, hchild, -, hid⟩ := (hbt.mem_children hmem).mp hx
          exact ⟨child, hchild, hid⟩
      unfold BlockTree.highCommittable
      simp only [hbt.indexed.get?_of_mem hmem]
      split
      · exact hnext high
      split
      · exact hnext high
      next qcParent hparent =>
        have hqc : entry.validatedBlock.header.qc.info.id =
            env.getId qcParent.validatedBlock.header := (Tree.of_get? hparent).2.symm
        unfold QuorumCertificate.getCommittableId
        split_ifs
        · dsimp only
          split_ifs
          · exact hnext high
          · exact hnext high
          · exact hnext _
        · exact hnext high

theorem getHighCommittableQc : ∃ qc?, bt.getHighCommittableQc = .ok qc? := by
  obtain ⟨rest, hfrontier, hlen⟩ := hbt.frontier_root
  refine hbt.highCommittable none hfrontier (by omega) fun x hx => ?_
  obtain ⟨e, he, -, hid⟩ := Tree.mem_childrenOf.mp (hbt.rootChildren.mem_iff.mp hx)
  exact ⟨e, he, hid⟩

/-! ## Committing -/

/-- Walking up a coherent path removes its blocks and returns them. -/
theorem commitPath {commit : List (ConsensusFullBlock env)} (hpath : bt.Path id path)
    (hget : bt.tree.get? id = some entry) (hcoh : ∀ b ∈ path, bt.isCoherent b.getId = true)
    (hfuel : path.length ≤ fuel) (htree : tree.Indexed)
    (hkeep : ∀ b ∈ path.dropLast, tree.get? b.getId = bt.tree.get? b.getId) :
    ∃ tree', commitPath bt.root.blockId fuel tree entry commit =
        .ok (path ++ commit, tree') ∧ tree'.Indexed ∧
      tree'.entries = tree.entries.filter fun e =>
        decide (e.getId ∉ path.dropLast.map getId) := by
  induction hpath generalizing fuel tree entry commit with
  | @child id entry₀ hget₀ hroot =>
    cases hget₀.symm.trans hget
    obtain ⟨fuel, rfl⟩ : ∃ m, fuel = m + 1 := ⟨fuel - 1, by simp at hfuel; omega⟩
    have hentry : entry₀.isCoherent = true :=
      (hbt.isCoherent_of_mem (Tree.of_get? hget).1).symm.trans (hcoh _ (mem_singleton_self _))
    refine ⟨tree, ?_, htree, by simp⟩
    unfold commitPath
    simp only [hentry, if_true, hroot, singleton_append]
  | @extend id entry₀ path hget₀ hroot hpath ih =>
    cases hget₀.symm.trans hget
    obtain ⟨fuel, rfl⟩ : ∃ m, fuel = m + 1 := ⟨fuel - 1, by simp at hfuel; omega⟩
    have hentry : entry₀.isCoherent = true :=
      (hbt.isCoherent_of_mem (Tree.of_get? hget).1).symm.trans
        (hcoh _ (mem_append_right path (mem_singleton_self _)))
    rw [dropLast_concat] at hkeep ⊢
    rw [length_append, length_singleton] at hfuel
    obtain ⟨parent, init, hparent, rfl⟩ := hpath.eq_append
    have hparentId := (Tree.of_get? hparent).2
    have hlast := mem_append_right init (mem_singleton_self parent.validatedBlock)
    obtain ⟨tree₁, hremove, hindexed₁⟩ := htree.remove entry₀.validatedBlock.getParentId
    have hentries₁ := (Tree.remove_ok hremove).2
    have hparent' : tree.get? entry₀.validatedBlock.getParentId = some parent := by
      rw [← hparent, ← hparentId]
      exact hkeep _ hlast
    rw [hparent'] at hremove
    have hkeep₁ : ∀ b ∈ (init ++ [parent.validatedBlock]).dropLast,
        tree₁.get? b.getId = bt.tree.get? b.getId := by
      rw [dropLast_concat]
      intro b hb
      have hne : b.getId ≠ parent.getId := hbt.ne_last_of_path hpath hb
      rw [Tree.get?_of_filter hentries₁ (hparentId ▸ hne)]
      exact hkeep b (mem_append_left _ hb)
    obtain ⟨tree', hrun, hindexed', hentries'⟩ :=
      @ih parent fuel tree₁ (entry₀.validatedBlock :: commit) hparent
        (fun b hb => hcoh b (mem_append_left _ hb)) (by omega) hindexed₁ hkeep₁
    refine ⟨tree', ?_, hindexed', ?_⟩
    · rw [append_assoc _ [entry₀.validatedBlock], singleton_append]
      unfold commitPath
      simp only [hentry, if_true, hroot, if_false, hremove, hrun]
    rw [hentries', hentries₁, dropLast_concat, Tree.filter_not_mem_cons]
    congr 1
    funext e
    refine decide_eq_decide.mpr (not_congr ?_)
    rw [map_append, map_singleton, mem_append, mem_singleton, mem_cons, ← hparentId]
    exact or_comm

/-- After a commit the tree has the blocks whose QC is not older than the new root. -/
theorem of_prune (he : entry ∈ bt.tree.entries) (htree : tree.Indexed)
    (hentries : tree.entries = bt.tree.entries.filter fun e =>
      decide (entry.validatedBlock.getBlockRound ≤ e.validatedBlock.getParentRound)) :
    Integrity B
      { root :=
          { round := entry.validatedBlock.getBlockRound
            seqNum := entry.validatedBlock.getSeqNum
            epoch := entry.validatedBlock.header.epoch
            blockId := entry.validatedBlock.getId
            timestampNs := entry.validatedBlock.getTimestamp }
        rootChildren := entry.childrenBlocks
        tree } := by
  have hblock := hbt.blocks entry he
  have hmem : ∀ {e}, e ∈ tree.entries ↔ e ∈ bt.tree.entries ∧
      entry.validatedBlock.getBlockRound ≤ e.validatedBlock.getParentRound := by
    intro e
    rw [hentries, mem_filter, decide_eq_true_iff]
  -- no child of the new root or of a block that stays is deleted
  have hchildren : ∀ x, (∀ e ∈ bt.tree.entries, e.validatedBlock.getParentId = x →
      entry.validatedBlock.getBlockRound ≤ e.validatedBlock.getParentRound) →
      tree.childrenOf x = bt.tree.childrenOf x := by
    intro x hx
    unfold Tree.childrenOf Tree.select
    rw [hentries, filter_filter]
    congr 1
    refine filter_congr fun e he => ?_
    dsimp only
    by_cases hparent : e.validatedBlock.getParentId = x
    · rw [decide_eq_true (hx e he hparent), Bool.and_true]
    · rw [decide_eq_false hparent, Bool.false_and]
  have hlt := hbt.above entry he
  constructor
  case fits =>
    exact
      { collisionFree := hbt.fits.collisionFree
        parentRound_lt := hbt.fits.parentRound_lt
        parent_le := hbt.fits.parent_le
        root_le := fun b hb h => hbt.fits.parent_le b _ hb hblock h
        root_eq := fun b hb h => congrArg (·.blockRound) (hbt.fits.collisionFree b _ hb hblock h) }
  case indexed => exact htree
  case blocks => exact fun e he => hbt.blocks e (hmem.mp he).1
  case above =>
    intro e he
    have hlt := hbt.fits.parentRound_lt _ (hbt.blocks e (hmem.mp he).1)
    exact (hmem.mp he).2.trans_lt hlt
  case rootChildren =>
    rw [hchildren]
    · exact hbt.children entry he
    · intro e he' hparent
      exact hbt.fits.parent_le _ _ (hbt.blocks e he') hblock hparent
  case children =>
    intro e he
    obtain ⟨he, hstays⟩ := hmem.mp he
    rw [hchildren]
    · exact hbt.children e he
    · intro c hc hparent
      have hle := hbt.fits.parent_le _ _ (hbt.blocks c hc) (hbt.blocks e he) hparent
      have hlt := hbt.fits.parentRound_lt _ (hbt.blocks e he)
      omega
  case coherent =>
    intro e he hcoh
    rcases hbt.coherent e (hmem.mp he).1 hcoh with hroot | ⟨parent, hparent, hid, hpc⟩ | hold
    · refine .inr (.inr fun c hc hid => ?_)
      have hround := hbt.fits.root_eq c hc (hid.trans hroot)
      have hltc := hbt.fits.parentRound_lt c hc
      dsimp only
      omega
    · by_cases hstays : entry.validatedBlock.getBlockRound ≤ parent.validatedBlock.getParentRound
      · exact .inr (.inl ⟨parent, hmem.mpr ⟨hparent, hstays⟩, hid, hpc⟩)
      refine .inr (.inr fun c hc hid' => ?_)
      have hheader := hbt.fits.collisionFree c _ hc (hbt.blocks parent hparent)
        (hid'.trans hid.symm)
      unfold getParentRound at hstays ⊢
      rw [hheader]
      exact not_le.mp hstays
    · exact .inr (.inr fun c hc hid => (hold c hc hid).trans hlt)

/-- Deleting the blocks that are too old from what a commit leaves. -/
theorem filter_obsolete {init : List (ConsensusFullBlock env)} {obsolete : List T.BlockId}
    (hpath : bt.Path id (init ++ [entry.validatedBlock]))
    (hentries : tree.entries = bt.tree.entries.filter fun e =>
      decide (e.getId ∉ entry.getId :: init.map getId))
    (hobsolete : obsolete = (tree.entries.filter fun e =>
      decide (e.validatedBlock.getParentRound < entry.validatedBlock.getBlockRound)).map
        BlockTreeEntry.getId) :
    (tree.entries.filter fun e => decide (e.getId ∉ obsolete)) =
      bt.tree.entries.filter fun e =>
        decide (entry.validatedBlock.getBlockRound ≤ e.validatedBlock.getParentRound) := by
  have hmem : ∀ e ∈ bt.tree.entries, (e ∈ tree.entries ↔
      e.getId ∉ entry.getId :: init.map getId) := by
    intro e he
    rw [hentries, mem_filter, decide_eq_true_iff, and_iff_right he]
  have hsub : ∀ e ∈ tree.entries, e ∈ bt.tree.entries := by
    rw [hentries]
    exact fun e he => mem_of_mem_filter he
  rw [hentries, filter_filter]
  refine filter_congr fun e he => ?_
  rw [← Bool.decide_and]
  refine decide_eq_decide.mpr ⟨?_, ?_⟩
  · rintro ⟨hnot, hin⟩
    by_contra hlt
    rw [hobsolete] at hnot
    exact hnot (mem_map_of_mem (mem_filter.mpr
      ⟨(hmem e he).mpr hin, decide_eq_true (not_le.mp hlt)⟩))
  · intro hle
    refine ⟨fun hold => ?_, fun hpathId => ?_⟩
    · rw [hobsolete] at hold
      obtain ⟨e', he', hid⟩ := mem_map.mp hold
      obtain ⟨he', hlt⟩ := mem_filter.mp he'
      obtain rfl := hbt.indexed.eq_of_getId_eq (hsub e' he') he hid
      exact absurd hle (not_le.mpr (of_decide_eq_true hlt))
    · have hin : e.getId ∈ (init ++ [entry.validatedBlock]).map getId := by
        rw [map_append, map_singleton, mem_append, mem_singleton]
        exact (mem_cons.mp hpathId).symm
      obtain ⟨b, hb, hid⟩ := mem_map.mp hin
      obtain ⟨e', hget', rfl⟩ := hpath.get? hb
      obtain ⟨he', hid'⟩ := Tree.of_get? hget'
      obtain rfl := hbt.indexed.eq_of_getId_eq he' he hid
      exact absurd hle (not_le.mpr (hbt.parentRound_lt_last hpath hb))

theorem connected_of_prune {res : List (ConsensusFullBlock env) × BlockTree env}
    (h : bt.prune id = .ok res) : (bt.getBlocksOnPathFromRoot id).isSome = true := by
  unfold prune at h
  split_ifs at h with _ hroot
  · exact Option.isSome_iff_exists.mpr ⟨[], if_pos hroot⟩
  split at h
  · cases h
  · cases h
  next entry tree hremove =>
    obtain ⟨hget, hentries⟩ := Tree.remove_ok hremove
    split at h
    · cases h
    next hcommit =>
      obtain ⟨path, hpath⟩ :=
        path_of_commitPath (Tree.get?_of_filter_some hentries) hget.symm hcommit
      rw [(hbt.getBlocksOnPathFromRoot_eq_some hroot).mpr hpath]
      rfl

theorem prune (hcoh : bt.isCoherent id = true)
    (hconnected : (bt.getBlocksOnPathFromRoot id).isSome = true) :
    ∃ commit bt', bt.prune id = .ok (commit, bt') ∧ Integrity B bt' ∧
      (id ≠ bt.root.blockId → bt.Pruned id commit bt') := by
  unfold BlockTree.prune
  rw [hcoh, if_neg (by simp)]
  split
  next heq => exact ⟨[], bt, rfl, hbt, fun hne => absurd heq hne⟩
  next hne =>
    obtain ⟨path, hsome⟩ := Option.isSome_iff_exists.mp hconnected
    have hpath := (hbt.getBlocksOnPathFromRoot_eq_some hne).mp hsome
    obtain ⟨entry, init, hget, rfl⟩ := hpath.eq_append
    obtain ⟨he, rfl⟩ := Tree.of_get? hget
    obtain ⟨tree₁, hremove, hindexed₁⟩ := hbt.indexed.remove entry.getId
    have hentries₁ := (Tree.remove_ok hremove).2
    rw [hget] at hremove
    have hkeep : ∀ b ∈ (init ++ [entry.validatedBlock]).dropLast,
        tree₁.get? b.getId = bt.tree.get? b.getId := by
      rw [dropLast_concat]
      exact fun b hb => Tree.get?_of_filter hentries₁ (hbt.ne_last_of_path hpath hb)
    obtain ⟨tree₂, hcommit, hindexed₂, hentries₂⟩ : ∃ tree₂, BlockTree.commitPath bt.root.blockId
        (bt.size + 1) tree₁ entry [] = .ok (init ++ [entry.validatedBlock] ++ [], tree₂) ∧ _ :=
      hbt.commitPath hpath hget (hbt.coherent_path hpath hcoh)
        ((hbt.length_path_le hpath).trans (Nat.le_succ _)) hindexed₁ hkeep
    obtain ⟨tree₃, hall, hindexed₃⟩ := hindexed₂.removeAll ((tree₂.entries.filter fun e =>
      decide (e.validatedBlock.getParentRound < entry.validatedBlock.getBlockRound)).map
        BlockTreeEntry.getId)
    simp only [hremove, hcommit, hall]
    rw [dropLast_concat, hentries₁, Tree.filter_not_mem_cons] at hentries₂
    have hentries₃ := (Tree.removeAll_ok hall).trans (hbt.filter_obsolete hpath hentries₂ rfl)
    refine ⟨_, _, rfl, hbt.of_prune he hindexed₃ hentries₃, fun _ => ⟨?_, ⟨entry, hget, rfl⟩, ?_⟩⟩
    · rwa [append_nil]
    · intro e
      rw [hentries₃, mem_filter, decide_eq_true_iff]

end

end Integrity

/-! ## Runs -/

/-- What is done to a block tree. -/
inductive TreeOp (env : Env T) where
  | add (block : ConsensusFullBlock env)
  | tryUpdateCoherency (check : CheckCoherency env) (id : T.BlockId)
  | prune (newRoot : T.BlockId)

namespace TreeOp

def apply : TreeOp env → BlockTree env → Except TreePanic (BlockTree env)
  | .add block, bt => bt.add block
  | .tryUpdateCoherency check id, bt => (bt.tryUpdateCoherency check id).map Prod.snd
  | .prune newRoot, bt => (bt.prune newRoot).map Prod.snd

/-- Only blocks of `B` are added, and only coherent blocks are committed. -/
def Allowed (B : ConsensusFullBlock env → Prop) (bt : BlockTree env) : TreeOp env → Prop
  | .add block => B block
  | .tryUpdateCoherency _ _ => True
  | .prune newRoot => bt.isCoherent newRoot = true

/-- Only blocks with a path to the root are committed. -/
def Connected (bt : BlockTree env) : TreeOp env → Prop
  | .prune newRoot => (bt.getBlocksOnPathFromRoot newRoot).isSome = true
  | _ => True

def run : List (TreeOp env) → BlockTree env → Except TreePanic (BlockTree env)
  | [], bt => .ok bt
  | op :: ops, bt =>
    match op.apply bt with
    | .error e => .error e
    | .ok bt' => run ops bt'

end TreeOp

/-- The states of a block tree that starts with `root` and gets only blocks of `B`. -/
inductive Reached (B : ConsensusFullBlock env → Prop) (root : RootInfo T) : BlockTree env → Prop
  | new : Reached B root (new root)
  | step {bt bt' : BlockTree env} {op : TreeOp env} (h : Reached B root bt)
      (hallowed : op.Allowed B bt) (hstep : op.apply bt = .ok bt') : Reached B root bt'

variable {op : TreeOp env} {root : RootInfo T} {e : BlockTreeEntry env}

theorem Integrity.apply (hbt : Integrity B bt) (hallowed : op.Allowed B bt)
    (hconnected : op.Connected bt) : ∃ bt', op.apply bt = .ok bt' ∧ Integrity B bt' := by
  cases op with
  | add block => exact hbt.add hallowed
  | tryUpdateCoherency check id =>
    obtain ⟨blocks, bt', h, hbt'⟩ := hbt.tryUpdateCoherency check id
    refine ⟨bt', ?_, hbt'⟩
    rw [TreeOp.apply, h]
    rfl
  | prune newRoot =>
    obtain ⟨commit, bt', h, hbt', -⟩ := hbt.prune hallowed hconnected
    refine ⟨bt', ?_, hbt'⟩
    rw [TreeOp.apply, h]
    rfl

theorem Integrity.connected_of_apply (hbt : Integrity B bt) (h : op.apply bt = .ok bt') :
    op.Connected bt := by
  cases op with
  | add => trivial
  | tryUpdateCoherency => trivial
  | prune newRoot =>
    cases hprune : bt.prune newRoot with
    | error e =>
      rw [TreeOp.apply, hprune] at h
      cases h
    | ok res => exact hbt.connected_of_prune hprune

theorem Reached.invariant (hfits : Fits B root) (h : Reached B root bt) : Integrity B bt := by
  induction h with
  | new => exact integrity_new hfits
  | step h hallowed hstep ih =>
    obtain ⟨bt', happly, hbt'⟩ := ih.apply hallowed (ih.connected_of_apply hstep)
    cases happly.symm.trans hstep
    exact hbt'

/-- The block tree lists children and bodies exactly, marks only complete paths coherent,
and asserts nothing that fails, except that a commit needs a path to the root. -/
theorem Reached.tree_integrity {root : RootInfo T} (hfits : Fits B root) (h : Reached B root bt) :
    bt.rootChildren.Perm (bt.tree.childrenOf bt.root.blockId) ∧
    (∀ e ∈ bt.tree.entries, e.childrenBlocks.Perm (bt.tree.childrenOf e.getId)) ∧
    bt.tree.Indexed ∧
    (∀ id path, bt.Path id path → bt.isCoherent id = true →
      ∀ b ∈ path, bt.isCoherent b.getId = true) ∧
    (∃ qc?, bt.getHighCommittableQc = .ok qc?) ∧
    ∀ op : TreeOp env, op.Allowed B bt → ((∃ bt', op.apply bt = .ok bt') ↔ op.Connected bt) := by
  have hbt := h.invariant hfits
  refine ⟨hbt.rootChildren, hbt.children, hbt.indexed, ?_, hbt.getHighCommittableQc, ?_⟩
  · intro id path hpath hcoh
    exact hbt.coherent_path hpath hcoh
  intro op hallowed
  constructor
  · rintro ⟨bt', hstep⟩
    exact hbt.connected_of_apply hstep
  · intro hconnected
    obtain ⟨bt', hstep, -⟩ := hbt.apply hallowed hconnected
    exact ⟨bt', hstep⟩

/-- The blocks that extend a block. -/
inductive Below (bt : BlockTree env) (id : T.BlockId) : BlockTreeEntry env → Prop
  | child {e : BlockTreeEntry env} (he : e ∈ bt.tree.entries)
      (hparent : e.validatedBlock.getParentId = id) : Below bt id e
  | step {parent e : BlockTreeEntry env} (h : Below bt id parent) (he : e ∈ bt.tree.entries)
      (hparent : e.validatedBlock.getParentId = parent.getId) : Below bt id e

theorem Below.mem (h : bt.Below id e) : e ∈ bt.tree.entries := by
  cases h with
  | child he => exact he
  | step _ he => exact he

/-- The QC of a block that extends another is not older than that block. -/
theorem Integrity.round_le_of_below (hbt : Integrity B bt) (hget : bt.tree.get? id = some entry)
    (h : bt.Below id e) : entry.validatedBlock.getBlockRound ≤ e.validatedBlock.getParentRound := by
  obtain ⟨hentry, rfl⟩ := Tree.of_get? hget
  induction h with
  | @child e he hparent =>
    exact hbt.fits.parent_le _ _ (hbt.blocks e he) (hbt.blocks entry hentry) hparent
  | @step parent e h he hparent ih =>
    have hblock := hbt.blocks parent h.mem
    have hlt := hbt.fits.parentRound_lt _ hblock
    have hle := hbt.fits.parent_le _ _ (hbt.blocks e he) hblock hparent
    omega

/-- A commit goes through if and only if there is a path to the block. Then it returns that path,
moves the root, and of all blocks in the tree it keeps those with a QC not older than the new root,
among them all that extend it, as they are. -/
theorem Reached.prune_accurate {root : RootInfo T} (hfits : Fits B root) (h : Reached B root bt)
    (hcoh : bt.isCoherent id = true) (hne : id ≠ bt.root.blockId) :
    (∃ commit bt', bt.prune id = .ok (commit, bt') ∧ bt.Pruned id commit bt' ∧
      ∀ e, bt.Below id e → e ∈ bt'.tree.entries) ↔
    (bt.getBlocksOnPathFromRoot id).isSome = true := by
  have hbt := h.invariant hfits
  constructor
  · rintro ⟨commit, bt', hprune, -⟩
    exact hbt.connected_of_prune hprune
  intro hconnected
  obtain ⟨commit, bt', hprune, -, hpruned⟩ := hbt.prune hcoh hconnected
  have hpruned := hpruned hne
  refine ⟨commit, bt', hprune, hpruned, fun e he => (hpruned.entries e).mpr ⟨he.mem, ?_⟩⟩
  obtain ⟨entry, hget, hroot⟩ := hpruned.root
  rw [hroot]
  exact hbt.round_le_of_below hget he

/-- Whether an operation is on the listed blocks. -/
def TreeOp.Within (blocks : List (ConsensusFullBlock env)) : TreeOp env → Prop
  | .add block => block ∈ blocks
  | _ => True

theorem Reached.of_run {blocks : List (ConsensusFullBlock env)} {ops : List (TreeOp env)}
    (h : Reached (· ∈ blocks) root bt) (hops : ∀ op ∈ ops, op.Within blocks)
    (hrun : TreeOp.run ops bt = .ok bt') : Reached (· ∈ blocks) root bt' := by
  induction ops generalizing bt with
  | nil =>
    cases hrun
    exact h
  | cons op ops ih =>
    unfold TreeOp.run at hrun
    split at hrun
    · cases hrun
    next bt₁ hstep =>
      refine ih (h.step ?_ hstep) (fun op hop => hops op (mem_cons_of_mem _ hop)) hrun
      have hop := hops op mem_cons_self
      cases op with
      | add block => exact hop
      | tryUpdateCoherency => trivial
      | prune newRoot =>
        by_contra hcoh
        have hincoherent : bt.isCoherent newRoot = false := by simpa [TreeOp.Allowed] using hcoh
        simp [TreeOp.apply, prune, hincoherent, Except.map] at hstep

/-! ## The committed chain -/

/-- A chain of blocks from one id, without its block, to another. -/
def Leads : T.BlockId → List (ConsensusFullBlock env) → T.BlockId → Prop
  | id, [], last => id = last
  | id, block :: blocks, last => block.getParentId = id ∧ Leads block.getId blocks last

theorem Leads.append {last : T.BlockId} {blocks blocks' : List (ConsensusFullBlock env)}
    (h : Leads id blocks c) (h' : Leads c blocks' last) : Leads id (blocks ++ blocks') last := by
  induction blocks generalizing id with
  | nil => exact h ▸ h'
  | cons block blocks ih => exact ⟨h.1, ih h.2⟩

theorem Path.leads (hpath : bt.Path id path) : Leads bt.root.blockId path id := by
  induction hpath with
  | child hget hroot => exact ⟨hroot, (Tree.of_get? hget).2⟩
  | extend hget _ _ ih => exact ih.append ⟨rfl, (Tree.of_get? hget).2⟩

theorem root_updateQueue {check : CheckCoherency env} {fuel : ℕ}
    {blocks : List (ConsensusFullBlock env)}
    (h : updateQueue check fuel queue bt = .ok (blocks, bt')) : bt'.root = bt.root := by
  fun_induction updateQueue check fuel queue bt generalizing blocks with
  | case1 =>
    cases h
    rfl
  | case8 _ _ _ _ _ _ _ _ _ _ _ _ _ _ _ hrest ih =>
    cases h
    exact ih hrest
  | case9 _ _ _ _ _ _ _ _ _ ih => exact ih h
  | _ => cases h

theorem root_tryUpdateCoherency {check : CheckCoherency env} {blocks : List (ConsensusFullBlock env)}
    (h : bt.tryUpdateCoherency check id = .ok (blocks, bt')) : bt'.root = bt.root := by
  unfold BlockTree.tryUpdateCoherency at h
  split at h
  · cases h
    rfl
  split at h
  · cases h
  · cases h
    rfl
  · exact root_updateQueue h

theorem root_add {block : ConsensusFullBlock env} (h : bt.add block = .ok bt') :
    bt'.root = bt.root := by
  unfold BlockTree.add at h
  split at h
  · split at h <;> cases h
    rfl
  · cases h
    rfl

/-- An operation, with the blocks it commits. -/
def TreeOp.commit (bt : BlockTree env) :
    TreeOp env → Except TreePanic (List (ConsensusFullBlock env) × BlockTree env)
  | .add block => (bt.add block).map fun bt => ([], bt)
  | .tryUpdateCoherency check id => (bt.tryUpdateCoherency check id).map fun r => ([], r.2)
  | .prune newRoot => bt.prune newRoot

/-- Operations one after the other, with all blocks they commit. -/
def TreeOp.commits : List (TreeOp env) → BlockTree env →
    Except TreePanic (List (ConsensusFullBlock env) × BlockTree env)
  | [], bt => .ok ([], bt)
  | op :: ops, bt => do
    let (commit, bt) ← op.commit bt
    let (commits, bt) ← TreeOp.commits ops bt
    return (commit ++ commits, bt)

theorem Integrity.commit {blocks commit : List (ConsensusFullBlock env)}
    (hbt : Integrity (· ∈ blocks) bt) (hop : op.Within blocks) (h : op.commit bt = .ok (commit, bt')) :
    Integrity (· ∈ blocks) bt' ∧ Leads bt.root.blockId commit bt'.root.blockId := by
  cases op with
  | add block =>
    obtain ⟨_, hadd, hbt'⟩ := hbt.add hop
    rw [TreeOp.commit, hadd] at h
    cases h
    exact ⟨hbt', congrArg RootInfo.blockId (root_add hadd).symm⟩
  | tryUpdateCoherency check id =>
    obtain ⟨_, _, hupdate, hbt'⟩ := hbt.tryUpdateCoherency check id
    rw [TreeOp.commit, hupdate] at h
    cases h
    exact ⟨hbt', congrArg RootInfo.blockId (root_tryUpdateCoherency hupdate).symm⟩
  | prune id =>
    rw [TreeOp.commit] at h
    have hcoh : bt.isCoherent id = true := by
      by_contra hcoh
      rw [BlockTree.prune, if_pos (by simpa using hcoh)] at h
      cases h
    obtain ⟨_, _, hprune, hbt', hpruned⟩ := hbt.prune hcoh (hbt.connected_of_prune h)
    cases hprune.symm.trans h
    refine ⟨hbt', ?_⟩
    by_cases hroot : id = bt.root.blockId
    · rw [BlockTree.prune, if_neg (by simpa using hcoh), if_pos hroot] at h
      cases h
      rfl
    · obtain ⟨entry, hget, hroot'⟩ := (hpruned hroot).root
      have hid : bt'.root.blockId = id := by
        rw [hroot', ← (Tree.of_get? hget).2]
        rfl
      rw [hid]
      exact (hpruned hroot).path.leads

/-- **One chain.** Whatever is done to a block tree, the blocks it commits are one chain, from its
root at the start to its root at the end. -/
theorem Reached.commits_lead {blocks commits : List (ConsensusFullBlock env)}
    {ops : List (TreeOp env)} (hfits : Fits (· ∈ blocks) root) (h : Reached (· ∈ blocks) root bt)
    (hops : ∀ op ∈ ops, op.Within blocks) (hrun : TreeOp.commits ops bt = .ok (commits, bt')) :
    Leads bt.root.blockId commits bt'.root.blockId := by
  have hbt := h.invariant hfits
  clear h
  induction ops generalizing bt commits with
  | nil =>
    cases hrun
    rfl
  | cons op ops ih =>
    obtain ⟨⟨commit, bt₁⟩, hop, hrun⟩ := bind_eq_ok.mp hrun
    obtain ⟨⟨rest, bt₂⟩, hrest, hrun⟩ := bind_eq_ok.mp hrun
    cases hrun
    obtain ⟨hbt₁, hleads⟩ := hbt.commit (hops op mem_cons_self) hop
    exact hleads.append (ih (fun op hop => hops op (mem_cons_of_mem _ hop)) hrest hbt₁)

end BlockTree

namespace Ideal

open BlockTree

def fullBlock (tip : ConsensusTip types) : ConsensusFullBlock soleLeader :=
  ⟨tip.blockHeader, tip.blockHeader.blockBodyId, rfl⟩

/-- A block of round 2, certified again in round 5. -/
def oldBlock : ConsensusFullBlock soleLeader := fullBlock (tip 0 2 genesisQc 1 0 none)

/-- A block of round 6 on that QC. -/
def orphan : ConsensusFullBlock soleLeader :=
  fullBlock (tip 0 6 (qc [0, 1, 2] oldBlock.getId 5 1) 2 1 none)

/-- A block of round 4 beside them. -/
def rival : ConsensusFullBlock soleLeader := fullBlock (tip 0 4 genesisQc 1 1 none)

def accept : CheckCoherency soleLeader := fun _ _ _ => true

/-- All three blocks become coherent, and the rival is committed. -/
def orphanOps : List (TreeOp soleLeader) :=
  [.add oldBlock, .add orphan, .add rival, .tryUpdateCoherency accept orphan.getId,
    .tryUpdateCoherency accept rival.getId, .prune rival.getId]

def orphanTree : BlockTree soleLeader :=
  (TreeOp.run orphanOps (.new root)).toOption.get (by decide +kernel)

def orphanBlocks : List (ConsensusFullBlock soleLeader) := [oldBlock, orphan, rival]

theorem fits_orphanBlocks : Fits (· ∈ orphanBlocks) root := by
  have hid : ∀ b ∈ orphanBlocks, ∀ c ∈ orphanBlocks, b.getId = c.getId → b.header = c.header := by
    decide +kernel
  have hparent : ∀ b ∈ orphanBlocks, ∀ c ∈ orphanBlocks,
      b.getParentId = c.getId → c.getBlockRound ≤ b.getParentRound := by
    decide +kernel
  exact
    { collisionFree := fun b c hb hc => hid b hb c hc
      parentRound_lt := by decide +kernel
      parent_le := fun b c hb hc => hparent b hb c hc
      root_le := by decide +kernel
      root_eq := by decide +kernel }

theorem reached_orphanTree : Reached (· ∈ orphanBlocks) root orphanTree := by
  have hops : ∀ op ∈ orphanOps, op.Within orphanBlocks := by
    simp [orphanOps, TreeOp.Within, orphanBlocks]
  exact Reached.new.of_run hops (eq_ok_get _)

theorem tree_integrity_orphanTree : orphanTree.root.blockId = rival.getId ∧
    orphanTree.tree.Indexed ∧ ∃ qc?, orphanTree.getHighCommittableQc = .ok qc? := by
  obtain ⟨-, -, hindexed, -, hqc, -⟩ := reached_orphanTree.tree_integrity fits_orphanBlocks
  exact ⟨by decide +kernel, hindexed, hqc⟩

/-- The commit of the rival deletes the parent of the orphan and leaves the orphan, still
coherent. Committing it walks off the tree. -/
theorem prune_orphan_panics : Fits (· ∈ orphanBlocks) root ∧
    Reached (· ∈ orphanBlocks) root orphanTree ∧ orphanTree.isCoherent orphan.getId = true ∧
    orphanTree.prune orphan.getId = .error .noPathToRoot :=
  ⟨fits_orphanBlocks, reached_orphanTree, by decide +kernel, by rfl⟩

/-- The orphan could be committed before. -/
theorem prune_accurate_orphan : ∃ bt, TreeOp.run orphanOps.dropLast (.new root) = .ok bt ∧
    ∃ commit bt', bt.prune orphan.getId = .ok (commit, bt') ∧ bt.Pruned orphan.getId commit bt' ∧
      ∀ e, bt.Below orphan.getId e → e ∈ bt'.tree.entries := by
  have hops : ∀ op ∈ orphanOps.dropLast, op.Within orphanBlocks := by
    simp [orphanOps, TreeOp.Within, orphanBlocks]
  have hrun := eq_ok_get (x := TreeOp.run orphanOps.dropLast (.new root)) (by decide +kernel)
  exact ⟨_, hrun, ((Reached.new.of_run hops hrun).prune_accurate fits_orphanBlocks
    (by decide +kernel) (by decide +kernel)).mpr (by decide +kernel)⟩

theorem prune_orphan_fails : Fits (· ∈ orphanBlocks) root ∧
    Reached (· ∈ orphanBlocks) root orphanTree ∧ orphanTree.isCoherent orphan.getId = true ∧
    orphan.getId ≠ orphanTree.root.blockId ∧
    ∀ commit bt', orphanTree.prune orphan.getId ≠ .ok (commit, bt') :=
  ⟨fits_orphanBlocks, reached_orphanTree, by decide +kernel, by decide +kernel, nofun⟩

/-- A block and the block on it, committed one after the other. -/
def twoCommits : List (TreeOp soleLeader) :=
  [.add oldBlock, .add orphan, .tryUpdateCoherency accept orphan.getId, .prune oldBlock.getId,
    .prune orphan.getId]

theorem commits_lead_twoCommits : ∃ commits bt, TreeOp.commits twoCommits (.new root) =
    .ok (commits, bt) ∧ commits.length = 2 ∧ Leads root.blockId commits bt.root.blockId := by
  have hrun := eq_ok_get (x := TreeOp.commits twoCommits (.new root)) (by decide +kernel)
  refine ⟨_, _, hrun, by decide +kernel, Reached.new.commits_lead fits_orphanBlocks ?_ hrun⟩
  simp [twoCommits, TreeOp.Within, orphanBlocks]

end Ideal

end MonadBft
