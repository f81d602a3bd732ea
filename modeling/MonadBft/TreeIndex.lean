import MonadBft.BlockTree

/-!
# Entries and payloads of the block tree

What inserting and removing a block does to the entries of the tree, by the ids of the
blocks with a property (`Tree.select`): the children of a block (`childrenOf`) and the
blocks with a body (`withBody`).

`Tree.Indexed`: every block is there once, and the payload index lists exactly the bodies
of the blocks, each with the blocks that have it. Inserting a new block and removing
blocks keep it, and none of their assertions fails.
-/

namespace MonadBft

open Assoc List BlockTreeEntry

variable {T : Types} {env : Env T}

/-! ## What the operations do to the entries -/

namespace Tree

variable {t t' : Tree env} {id : T.BlockId} {entry : BlockTreeEntry env}
  {block : ConsensusFullBlock env} {p : ConsensusFullBlock env → Bool} {x : T.BlockId}

/-- The ids of the blocks with a property. -/
def select (t : Tree env) (p : ConsensusFullBlock env → Bool) : List T.BlockId :=
  (t.entries.filter fun e => p e.validatedBlock).map getId

def childrenOf (t : Tree env) (id : T.BlockId) : List T.BlockId :=
  t.select fun b => decide (b.getParentId = id)

def withBody (t : Tree env) (bodyId : T.BlockBodyId) : List T.BlockId :=
  t.select fun b => decide (b.getBodyId = bodyId)

theorem mem_select : id ∈ t.select p ↔ ∃ e ∈ t.entries, p e.validatedBlock ∧ e.getId = id := by
  simp [select, and_assoc]

theorem mem_childrenOf : x ∈ t.childrenOf id ↔
    ∃ e ∈ t.entries, e.validatedBlock.getParentId = id ∧ e.getId = x := by
  simp [childrenOf, mem_select]

/-- Removing by id removes from every selection. -/
theorem select_of_filter {keep : T.BlockId → Bool}
    (h : t'.entries = t.entries.filter fun e => keep e.getId) :
    t'.select p = (t.select p).filter keep := by
  unfold select
  rw [h, filter_map, filter_filter, filter_filter]
  congr 2
  funext e
  exact Bool.and_comm _ _

theorem of_get? (h : t.get? id = some entry) : entry ∈ t.entries ∧ entry.getId = id :=
  ⟨mem_of_find?_eq_some h, by simpa using List.find?_some h⟩

theorem not_mem_of_get?_none (h : t.get? id = none) : ∀ e ∈ t.entries, e.getId ≠ id := by
  intro e he
  simpa using List.find?_eq_none.mp h e he

/-- A change of an entry that keeps its block. -/
def KeepsBlock (f : BlockTreeEntry env → BlockTreeEntry env) : Prop :=
  ∀ e, (f e).validatedBlock = e.validatedBlock

section Update

variable {f : BlockTreeEntry env → BlockTreeEntry env}

theorem mem_update : entry ∈ (t.update id f).entries ↔
    ∃ e ∈ t.entries, (if e.getId = id then f e else e) = entry := by
  simp [update]

theorem KeepsBlock.ite (hf : KeepsBlock f) (e : BlockTreeEntry env) :
    (if e.getId = id then f e else e).validatedBlock = e.validatedBlock := by
  split
  · exact hf e
  · rfl

theorem KeepsBlock.ite_getId (hf : KeepsBlock f) (e : BlockTreeEntry env) :
    (if e.getId = id then f e else e).getId = e.getId := by
  unfold getId
  exact congrArg _ (hf.ite e)

theorem select_update (hf : KeepsBlock f) : (t.update id f).select p = t.select p := by
  unfold select update
  rw [filter_map, map_map]
  have hfilter : ((fun e : BlockTreeEntry env => p e.validatedBlock) ∘
      fun e => if e.getId = id then f e else e) = fun e => p e.validatedBlock := by
    funext e
    rw [Function.comp_apply, hf.ite]
  rw [hfilter]
  exact map_congr_left fun e _ => hf.ite_getId e

theorem get?_update (hf : KeepsBlock f) (x : T.BlockId) : (t.update id f).get? x =
    (t.get? x).map fun e => if e.getId = id then f e else e := by
  unfold get? update
  rw [List.find?_map]
  congr 2
  funext e
  rw [Function.comp_apply, hf.ite_getId]

theorem keepsBlock_addChild (child : T.BlockId) :
    KeepsBlock (BlockTreeEntry.addChild child : BlockTreeEntry env → _) := fun _ => rfl

theorem keepsBlock_setCoherent (coherent : Bool) :
    KeepsBlock (BlockTreeEntry.setCoherent coherent : BlockTreeEntry env → _) := fun _ => rfl

end Update

theorem setCoherent_eq (hget : t.get? id = some entry) (coherent : Bool) :
    t.setCoherent id coherent = some (t.update id (BlockTreeEntry.setCoherent coherent)) := by
  simp [setCoherent, containsKey, hget]

/-- The new block comes first, and joins the children of its parent. -/
theorem insert_ok (h : t.insert block = .ok t') : ∃ payloads,
    t' = Tree.update ⟨t.newEntry block :: t.entries, payloads⟩ block.getParentId
      (addChild block.getId) := by
  unfold insert at h
  dsimp only at h
  split_ifs at h
  exact ⟨_, (Except.ok.inj h).symm⟩

theorem select_insert (h : t.insert block = .ok t') :
    t'.select p = if p block then block.getId :: t.select p else t.select p := by
  obtain ⟨payloads, rfl⟩ := insert_ok h
  rw [select_update (keepsBlock_addChild _)]
  unfold select
  split <;> simp_all [newEntry, getId]

theorem childrenOf_insert (h : t.insert block = .ok t') :
    t'.childrenOf id =
      if block.getParentId = id then block.getId :: t.childrenOf id else t.childrenOf id := by
  unfold childrenOf
  rw [select_insert h]
  simp

theorem remove_ok {removed : Option (BlockTreeEntry env)} (h : t.remove id = .ok (removed, t')) :
    removed = t.get? id ∧ t'.entries = t.entries.filter fun e => decide (e.getId ≠ id) := by
  unfold remove at h
  dsimp only at h
  split at h
  next hnone =>
    cases h
    refine ⟨hnone.symm, (filter_eq_self.mpr fun e he => ?_).symm⟩
    exact decide_eq_true (not_mem_of_get?_none hnone e he)
  next hsome =>
    split at h
    · cases h
    · split at h
      · cases h
      · cases h
        exact ⟨hsome.symm, rfl⟩

theorem get?_of_filter (h : t'.entries = t.entries.filter fun e => decide (e.getId ≠ id))
    (hne : x ≠ id) : t'.get? x = t.get? x := by
  unfold get?
  rw [h, List.find?_filter]
  congr 1
  funext e
  by_cases he : e.getId = x
  · simp [he, hne]
  · simp [he]

theorem get?_of_filter_some (h : t'.entries = t.entries.filter fun e => decide (e.getId ≠ id))
    (hget : t'.get? x = some entry) : t.get? x = some entry := by
  have hne : x ≠ id := by
    obtain ⟨hmem, rfl⟩ := of_get? hget
    rw [h] at hmem
    exact of_decide_eq_true (mem_filter.mp hmem).2
  rwa [get?_of_filter h hne] at hget

/-- Two removals in a row. -/
theorem filter_not_mem_cons (entries : List (BlockTreeEntry env)) (ids : List T.BlockId) :
    ((entries.filter fun e => decide (e.getId ≠ id)).filter fun e => decide (e.getId ∉ ids)) =
      entries.filter fun e => decide (e.getId ∉ id :: ids) := by
  rw [filter_filter]
  congr 1
  funext e
  rw [← Bool.decide_and]
  simp [and_comm]

theorem removeAll_ok {ids : List T.BlockId} (h : removeAll ids t = .ok t') :
    t'.entries = t.entries.filter fun e => decide (e.getId ∉ ids) := by
  fun_induction removeAll ids t with
  | case1 =>
    cases h
    simp
  | case2 => cases h
  | case3 id ids t _ t₁ hremove ih => rw [ih h, (remove_ok hremove).2, filter_not_mem_cons]

/-! ## The payload index -/

/-- What the payload index should say of the blocks with one body. -/
def Lists : Option (BlockBodyIndex T) → List T.BlockId → Prop
  | none, ids => ids = []
  | some index, ids => ids ≠ [] ∧ index.activeBlocks.Perm ids

/-- Every block occurs once, and the payload index has exactly the bodies of the blocks,
each with exactly the blocks that have it. -/
structure Indexed (t : Tree env) : Prop where
  nodup : (t.entries.map getId).Nodup
  payloads_nodup : (t.payloads.map Prod.fst).Nodup
  payloads : ∀ bodyId, Lists (Assoc.get? t.payloads bodyId) (t.withBody bodyId)

theorem indexed_empty : Indexed (⟨[], []⟩ : Tree env) where
  nodup := nodup_nil
  payloads_nodup := nodup_nil
  payloads _ := rfl

namespace Indexed

variable (ht : t.Indexed)

include ht

theorem eq_of_getId_eq {e e' : BlockTreeEntry env} (he : e ∈ t.entries) (he' : e' ∈ t.entries)
    (h : e.getId = e'.getId) : e = e' :=
  inj_on_of_nodup_map ht.nodup he he' h

theorem get?_of_mem (he : entry ∈ t.entries) : t.get? entry.getId = some entry := by
  cases hget : t.get? entry.getId with
  | none => exact absurd rfl (not_mem_of_get?_none hget entry he)
  | some e =>
    obtain ⟨hmem, hid⟩ := of_get? hget
    rw [ht.eq_of_getId_eq hmem he hid]

theorem select_nodup : (t.select p).Nodup := ht.nodup.sublist (filter_sublist.map _)

theorem update {f : BlockTreeEntry env → BlockTreeEntry env} (hf : KeepsBlock f) :
    (t.update id f).Indexed where
  nodup := by
    have hids : (t.update id f).entries.map getId = t.entries.map getId := by
      unfold Tree.update
      rw [map_map]
      exact map_congr_left fun e _ => hf.ite_getId e
    rw [hids]
    exact ht.nodup
  payloads_nodup := ht.payloads_nodup
  payloads bodyId := by
    unfold withBody
    rw [select_update hf]
    exact ht.payloads bodyId

/-- The index of the new block's body lists the blocks that have it. -/
theorem activeBlocks_perm (bodyId : T.BlockBodyId) (body : T.BlockBody) :
    ((Assoc.get? t.payloads bodyId).getD ⟨body, []⟩).activeBlocks.Perm (t.withBody bodyId) := by
  have h := ht.payloads bodyId
  cases hget : Assoc.get? t.payloads bodyId with
  | none =>
    rw [hget] at h
    rw [show t.withBody bodyId = [] from h]
    exact List.Perm.nil
  | some index =>
    rw [hget] at h
    exact h.2

theorem insert (hnew : t.containsKey block.getId = false) :
    ∃ t', t.insert block = .ok t' ∧ t'.Indexed := by
  have hnone : t.get? block.getId = none := by simpa [containsKey] using hnew
  have hfresh := not_mem_of_get?_none hnone
  have hperm := ht.activeBlocks_perm block.getBodyId block.body
  have hinactive : block.getId ∉
      ((Assoc.get? t.payloads block.getBodyId).getD ⟨block.body, []⟩).activeBlocks := by
    intro hmem
    obtain ⟨e, he, -, hid⟩ := mem_select.mp (hperm.mem_iff.mp hmem)
    exact hfresh e he hid
  unfold Tree.insert
  simp only [hnew, Bool.false_eq_true, if_false, hinactive]
  refine ⟨_, rfl, Indexed.update ?_ (keepsBlock_addChild _)⟩
  constructor
  · refine nodup_cons.mpr ⟨?_, ht.nodup⟩
    intro hmem
    obtain ⟨e, he, hid⟩ := mem_map.mp hmem
    exact hfresh e he hid
  · exact Assoc.nodup_set ht.payloads_nodup
  · intro bodyId
    rw [Assoc.get?_set]
    unfold withBody select
    rw [filter_cons]
    by_cases hbody : bodyId = block.getBodyId
    · subst hbody
      simp only [if_true, newEntry, decide_true]
      refine ⟨cons_ne_nil _ _, ?_⟩
      exact (perm_append_singleton _ _).trans (hperm.cons _)
    · have hne : decide ((t.newEntry block).validatedBlock.getBodyId = bodyId) ≠ true :=
        fun h => hbody (of_decide_eq_true h).symm
      rw [if_neg hbody, if_neg hne]
      exact ht.payloads bodyId

/-- Removing a block takes it from the index of its body, and the index from the payloads
if it was the last one. -/
theorem lists_remove {removed : BlockTreeEntry env} {index : BlockBodyIndex T}
    {active : List T.BlockId} (hmem : removed ∈ t.entries)
    (hindex : Assoc.get? t.payloads removed.validatedBlock.getBodyId = some index)
    (hactive : active = index.activeBlocks.filter fun b => decide (b ≠ removed.getId))
    (hentries : t'.entries = t.entries.filter fun e => decide (e.getId ≠ removed.getId))
    (hpayloads : t'.payloads =
      if active = [] then
        t.payloads.filter fun p => decide (p.1 ≠ removed.validatedBlock.getBodyId)
      else Assoc.set t.payloads removed.validatedBlock.getBodyId
        { index with activeBlocks := active })
    (bodyId : T.BlockBodyId) : Lists (Assoc.get? t'.payloads bodyId) (t'.withBody bodyId) := by
  have hwith : t'.withBody bodyId = (t.withBody bodyId).filter fun b => decide (b ≠ removed.getId) :=
    select_of_filter hentries
  have hold := ht.payloads bodyId
  by_cases hbody : bodyId = removed.validatedBlock.getBodyId
  · subst hbody
    rw [hindex] at hold
    have hperm : active.Perm (t'.withBody removed.validatedBlock.getBodyId) := by
      rw [hwith, hactive]
      exact hold.2.filter _
    rw [hpayloads]
    split
    next hnil =>
      rw [get?_filter_ne, if_pos rfl]
      rw [hnil] at hperm
      exact hperm.symm.eq_nil
    next hne =>
      rw [get?_set, if_pos rfl]
      refine ⟨fun hnil => hne ?_, hperm⟩
      rw [hnil] at hperm
      exact hperm.eq_nil
  · -- the block has another body, so neither side changes
    have hself : t'.withBody bodyId = t.withBody bodyId := by
      rw [hwith]
      refine filter_eq_self.mpr fun x hx => decide_eq_true ?_
      rintro rfl
      obtain ⟨e, he, hb, hid⟩ := mem_select.mp hx
      obtain rfl := ht.eq_of_getId_eq he hmem hid
      exact hbody (of_decide_eq_true hb).symm
    have hget : Assoc.get? t'.payloads bodyId = Assoc.get? t.payloads bodyId := by
      rw [hpayloads]
      split
      · rw [get?_filter_ne, if_neg hbody]
      · rw [Assoc.get?_set, if_neg hbody]
    rw [hself, hget]
    exact hold

theorem remove (id : T.BlockId) : ∃ t', t.remove id = .ok (t.get? id, t') ∧ t'.Indexed := by
  cases hget : t.get? id with
  | none =>
    refine ⟨t, ?_, ht⟩
    unfold Tree.remove
    rw [hget]
  | some removed =>
    obtain ⟨hmem, rfl⟩ := of_get? hget
    have hbody : removed.getId ∈ t.withBody removed.validatedBlock.getBodyId :=
      mem_select.mpr ⟨removed, hmem, by simp, rfl⟩
    have hlists := ht.payloads removed.validatedBlock.getBodyId
    unfold Tree.remove
    simp only [hget]
    cases hindex : Assoc.get? t.payloads removed.validatedBlock.getBodyId with
    | none =>
      rw [hindex] at hlists
      rw [show t.withBody removed.validatedBlock.getBodyId = [] from hlists] at hbody
      cases hbody
    | some index =>
      rw [hindex] at hlists
      have hactive : removed.getId ∈ index.activeBlocks := hlists.2.mem_iff.mpr hbody
      simp only [hactive, not_true, if_false]
      refine ⟨_, rfl, ?_, ?_, ht.lists_remove hmem hindex rfl rfl rfl⟩
      · exact ht.nodup.sublist (filter_sublist.map _)
      · dsimp only
        split
        · exact ht.payloads_nodup.sublist (filter_sublist.map _)
        · exact Assoc.nodup_set ht.payloads_nodup

theorem removeAll (ids : List T.BlockId) : ∃ t', Tree.removeAll ids t = .ok t' ∧ t'.Indexed := by
  induction ids generalizing t with
  | nil => exact ⟨t, rfl, ht⟩
  | cons id ids ih =>
    obtain ⟨t₁, hremove, ht₁⟩ := ht.remove id
    obtain ⟨t', hall, ht'⟩ := ih ht₁
    refine ⟨t', ?_, ht'⟩
    unfold Tree.removeAll
    rw [hremove]
    exact hall

end Indexed

end Tree

/-! ## Headers -/

namespace BlockTree

variable {bt bt' : BlockTree env} {id : T.BlockId} {block : ConsensusFullBlock env}
  {blocks : List (ConsensusFullBlock env)} {h : ConsensusBlockHeader T} {check : CheckCoherency env}
  {fuel : ℕ}

/-- The headers of the blocks of the tree. -/
def headers (bt : BlockTree env) : List (ConsensusBlockHeader T) :=
  bt.tree.entries.map fun e => e.validatedBlock.header

theorem mem_headers : h ∈ bt.headers ↔ ∃ e ∈ bt.tree.entries, e.validatedBlock.header = h := mem_map

theorem getId_of_getBlock (hget : bt.getBlock id = some block) : block.getId = id := by
  obtain ⟨entry, hentry, rfl⟩ := Option.map_eq_some_iff.mp hget
  exact (Tree.of_get? hentry).2

theorem header_mem_of_getBlock (hget : bt.getBlock id = some block) :
    block.header ∈ bt.headers := by
  obtain ⟨entry, hentry, rfl⟩ := Option.map_eq_some_iff.mp hget
  exact mem_headers.mpr ⟨entry, (Tree.of_get? hentry).1, rfl⟩

theorem mem_headers_add (hadd : bt.add block = .ok bt') (hh : h ∈ bt'.headers) :
    h ∈ bt.headers ∨ h = block.header := by
  unfold add at hadd
  split at hadd
  · split at hadd
    · cases hadd
    next tree hinsert =>
      cases hadd
      obtain ⟨payloads, rfl⟩ := Tree.insert_ok hinsert
      obtain ⟨e, he, rfl⟩ := mem_headers.mp hh
      obtain ⟨e₀, he₀, rfl⟩ := Tree.mem_update.mp he
      rw [(Tree.keepsBlock_addChild _).ite]
      rcases mem_cons.mp he₀ with rfl | he₀
      · exact .inr rfl
      · exact .inl (mem_headers.mpr ⟨e₀, he₀, rfl⟩)
  · cases hadd
    exact .inl hh

theorem mem_headers_updateQueue {queue : List T.BlockId}
    (hrun : updateQueue check fuel queue bt = .ok (blocks, bt')) (hh : h ∈ bt'.headers) :
    h ∈ bt.headers := by
  fun_induction updateQueue check fuel queue bt generalizing blocks with
  | case1 =>
    cases hrun
    exact hh
  | case8 _ _ _ _ _ _ _ _ _ _ hset _ _ _ _ hrest ih =>
    cases hrun
    obtain ⟨e, he, rfl⟩ := mem_headers.mp (ih hrest)
    unfold Tree.setCoherent at hset
    split at hset
    · cases hset
      obtain ⟨e₀, he₀, rfl⟩ := Tree.mem_update.mp he
      rw [(Tree.keepsBlock_setCoherent _).ite]
      exact mem_headers.mpr ⟨e₀, he₀, rfl⟩
    · cases hset
  | case9 _ _ _ _ _ _ _ _ _ ih => exact ih hrun
  | _ => cases hrun

theorem mem_headers_tryUpdateCoherency (hrun : bt.tryUpdateCoherency check id = .ok (blocks, bt'))
    (hh : h ∈ bt'.headers) : h ∈ bt.headers := by
  unfold tryUpdateCoherency at hrun
  split at hrun
  · cases hrun
    exact hh
  split at hrun
  · cases hrun
  · cases hrun
    exact hh
  · exact mem_headers_updateQueue hrun hh

theorem commitPath_ok {rootId : T.BlockId} {tree tree' : Tree env} {entry : BlockTreeEntry env}
    {commit commit' : List (ConsensusFullBlock env)}
    (hrun : commitPath rootId fuel tree entry commit = .ok (commit', tree')) :
    (∀ e ∈ tree'.entries, e ∈ tree.entries) ∧
      ∀ b ∈ commit', b ∈ commit ∨ b = entry.validatedBlock ∨
        ∃ e ∈ tree.entries, e.validatedBlock = b := by
  fun_induction commitPath rootId fuel tree entry commit with
  | case2 =>
    cases hrun
    refine ⟨fun e he => he, fun b hb => ?_⟩
    rcases mem_cons.mp hb with rfl | hb
    · exact .inr (.inl rfl)
    · exact .inl hb
  | case5 _ _ _ _ _ _ _ parent _ hremove ih =>
    obtain ⟨hparent, hentries⟩ := Tree.remove_ok hremove
    obtain ⟨htree, hcommit⟩ := ih hrun
    rw [hentries] at htree hcommit
    refine ⟨fun e he => mem_of_mem_filter (htree e he), fun b hb => ?_⟩
    rcases hcommit b hb with hb | rfl | ⟨e, he, rfl⟩
    · rcases mem_cons.mp hb with rfl | hb
      · exact .inr (.inl rfl)
      · exact .inl hb
    · exact .inr (.inr ⟨parent, (Tree.of_get? hparent.symm).1, rfl⟩)
    · exact .inr (.inr ⟨e, mem_of_mem_filter he, rfl⟩)
  | _ => cases hrun

/-- A commit commits blocks of the tree, and leaves blocks of the tree. -/
theorem prune_ok {newRoot : T.BlockId} (hrun : bt.prune newRoot = .ok (blocks, bt')) :
    (∀ b ∈ blocks, b.header ∈ bt.headers) ∧ ∀ h ∈ bt'.headers, h ∈ bt.headers := by
  unfold prune at hrun
  split_ifs at hrun
  · cases hrun
    exact ⟨fun b hb => (by cases hb), fun h hh => hh⟩
  split at hrun
  · cases hrun
  · cases hrun
  next entry tree hremove =>
    obtain ⟨hentry, hentries⟩ := Tree.remove_ok hremove
    have hsub : ∀ e ∈ tree.entries, e ∈ bt.tree.entries := by
      rw [hentries]
      exact fun e he => mem_of_mem_filter he
    dsimp only at hrun
    split at hrun
    · cases hrun
    next tree₂ hcommit =>
      split at hrun
      · cases hrun
      next tree₃ hall =>
        cases hrun
        obtain ⟨htree, hblocks⟩ := commitPath_ok hcommit
        refine ⟨fun b hb => ?_, fun h hh => ?_⟩
        · rcases hblocks b hb with hb | rfl | ⟨e, he, rfl⟩
          · cases hb
          · exact mem_headers.mpr ⟨entry, (Tree.of_get? hentry.symm).1, rfl⟩
          · exact mem_headers.mpr ⟨e, hsub e he, rfl⟩
        · obtain ⟨e, he, rfl⟩ := mem_headers.mp hh
          rw [Tree.removeAll_ok hall] at he
          exact mem_headers.mpr ⟨e, hsub e (htree e (mem_of_mem_filter he)), rfl⟩

end BlockTree

end MonadBft
