import MonadBft.BlockBuffer
import MonadBft.TreeIntegrity

/-!
# Catching up with the blocks below the root

A node that syncs wants the `2 * delay` blocks from its root down and asks for those below what it
has without a gap. If the chain has that many blocks, one answer completes them
(`needsBlocksync_iff`). If not, the node asks for blocks below the first one.
-/

namespace MonadBft

open List

namespace BlockBuffer

variable {T : Types} {env : Env T} {buffer : BlockBuffer env} {id : T.BlockId} {delay : ℕ}
  {chain walk blocks : List (ConsensusFullBlock env)}

/-- Blocks from `id` down to the first one. -/
inductive Rooted : T.BlockId → List (ConsensusFullBlock env) → Prop
  | nil : Rooted env.GENESIS_BLOCK_ID []
  | cons {id : T.BlockId} {b : ConsensusFullBlock env} {bs : List (ConsensusFullBlock env)} :
      b.getId = id → Rooted b.getParentId bs → Rooted id (b :: bs)

/-- The root is the last block of a chain, and the buffer has blocks of that chain. -/
structure Holds (buffer : BlockBuffer env) (delay : ℕ) (chain : List (ConsensusFullBlock env)) :
    Prop where
  rooted : Rooted buffer.root chain
  numbered : Numbered ConsensusFullBlock.getSeqNum 1 chain.reverse
  minNumBlocks : buffer.minNumBlocks = delay * 2
  blocks : buffer.fullBlocks ⊆ chain

/-- The id below a walk that starts with `id`. -/
def nextId (id : T.BlockId) (walk : List (ConsensusFullBlock env)) : T.BlockId :=
  (walk.getLast?.map ConsensusFullBlock.getParentId).getD id

theorem Rooted.append (h : Rooted id (walk ++ chain)) : Rooted (nextId id walk) chain := by
  induction walk generalizing id with
  | nil => exact h
  | cons b walk ih =>
    cases h with
    | cons _ h =>
      have hrest := ih h
      unfold nextId at hrest ⊢
      rw [getLast?_cons]
      cases hlast : walk.getLast? with
      | none => rwa [hlast] at hrest
      | some last => rwa [hlast] at hrest

theorem Rooted.head (h : Rooted id chain) (hne : chain ≠ []) :
    ∃ b, chain.head? = some b ∧ b.getId = id := by
  cases h with
  | nil => exact absurd rfl hne
  | cons hid _ => exact ⟨_, rfl, hid⟩

theorem Rooted.parentChain (h : Rooted id chain) : ParentChain id chain := by
  induction h with
  | nil => exact .nil _
  | cons hid _ ih => exact .cons hid ih

section Ids

variable (hinj : Function.Injective env.getId) (hgenesis : ∀ h, env.getId h ≠ env.GENESIS_BLOCK_ID)

include hinj hgenesis

/-- Blocks of the chain that follow each other are next to each other in it. -/
theorem Rooted.isPrefix (h : Rooted id chain) {l : List (ConsensusFullBlock env)}
    (hnum : Numbered ConsensusFullBlock.getSeqNum 1 l.reverse) (hchain : chain ⊆ l)
    (hwalk : ParentChain id walk) (hl : walk ⊆ l) : walk <+: chain := by
  induction h generalizing walk with
  | nil =>
    cases hwalk with
    | nil => exact prefix_rfl
    | cons hid _ => exact absurd hid (hgenesis _)
  | @cons id c cs hid _ ih =>
    cases hwalk with
    | nil => exact nil_prefix
    | @cons _ b bs hid' hwalk =>
      obtain ⟨hb, hbs⟩ := cons_subset.mp hl
      obtain ⟨hc, hcs⟩ := cons_subset.mp hchain
      obtain rfl : b = c := hnum.eq_of_key_eq (mem_reverse.mpr hb) (mem_reverse.mpr hc)
        (congrArg ConsensusBlockHeader.seqNum (hinj (hid'.trans hid.symm)))
      exact (prefix_cons_inj _).mpr (ih hcs hwalk hbs)

/-- The walk ends and is the upper part of the chain. -/
theorem Holds.exists_walk (h : buffer.Holds delay chain) :
    ∃ walk, buffer.rootParentChain = some walk ∧ walk <+: chain := by
  have hupper := fun walk => @Rooted.isPrefix _ _ _ _ walk hinj hgenesis h.rooted _ h.numbered
    fun _ hb => hb
  cases hwalk : buffer.rootParentChain with
  | none =>
    obtain ⟨walk, hparent, hlen, hall⟩ := parentChain_eq_none hwalk
    have hnodup := (hupper walk hparent fun b hb => h.blocks (hall b hb)).sublist.nodup
      (nodup_reverse.mp h.numbered.nodup)
    have := (subperm_of_subset hnodup hall).length_le
    omega
  | some walk =>
    obtain ⟨hparent, -, hall⟩ := parentChain_spec hwalk
    exact ⟨walk, rfl, hupper walk hparent fun b hb =>
      h.blocks (getFullBlock_eq_some (hall b hb)).1⟩

/-- No block of the chain is above the root, so a block that arrives is kept. -/
theorem Holds.handleBlocksync (h : buffer.Holds delay chain) {b : ConsensusFullBlock env}
    (hb : b ∈ chain) : (buffer.handleBlocksync b).Holds delay chain ∧
      (buffer.handleBlocksync b).getFullBlock b.getId = some b := by
  obtain ⟨c, hhead, hid⟩ := h.rooted.head (ne_nil_of_mem hb)
  have hnot : (buffer.rootSeqNum.any fun seqNum => decide (seqNum < b.getSeqNum)) = false := by
    cases hinfo : buffer.rootInfo with
    | none => rw [rootSeqNum, hinfo]; rfl
    | some info =>
      obtain ⟨r, hr, hseq, -⟩ := rootInfo_eq_some (hid ▸ hgenesis _) hinfo
      have hsame : r.getSeqNum = c.getSeqNum := congrArg ConsensusBlockHeader.seqNum
        (hinj ((getFullBlock_eq_some hr).2.trans hid.symm))
      have hlast := h.numbered.getLast? ((getLast?_reverse).trans hhead)
      have hbounds := (h.numbered.bounds (mem_reverse.mpr hb)).2
      rw [rootSeqNum, hinfo]
      exact decide_eq_false (by omega)
  unfold BlockBuffer.handleBlocksync
  rw [hnot]
  refine ⟨⟨h.rooted, h.numbered, h.minNumBlocks, cons_subset.mpr ⟨hb, fun x hx => ?_⟩⟩, ?_⟩
  · exact h.blocks (mem_of_mem_filter hx)
  · exact find?_cons_of_pos (decide_eq_true rfl)

theorem Holds.deliver (h : buffer.Holds delay chain) (hblocks : blocks ⊆ chain) :
    (blocks.foldl BlockBuffer.handleBlocksync buffer).Holds delay chain ∧ ∀ b ∈ blocks,
      ∃ b', (blocks.foldl BlockBuffer.handleBlocksync buffer).getFullBlock b.getId = some b' ∧
        b'.header = b.header := by
  induction blocks generalizing buffer with
  | nil => exact ⟨h, nofun⟩
  | cons b blocks ih =>
    obtain ⟨hb, hblocks⟩ := cons_subset.mp hblocks
    obtain ⟨h₁, hget⟩ := h.handleBlocksync hinj hgenesis hb
    obtain ⟨h₂, hall⟩ := ih h₁ hblocks
    exact ⟨h₂, forall_mem_cons.mpr
      ⟨included_foldl_handleBlocksync hinj blocks _ _ b hget, hall⟩⟩

omit hinj in
theorem Holds.needsBlocksync_eq (h : buffer.Holds delay chain) (hne : chain ≠ [])
    (hdelay : 1 ≤ delay) (hwalk : buffer.rootParentChain = some walk) :
    buffer.needsBlocksync = some (if walk.length < delay * 2 then
      some ⟨nextId buffer.root walk, delay * 2 - walk.length⟩ else none) := by
  obtain ⟨c, -, hid⟩ := h.rooted.head hne
  have hmin := h.minNumBlocks
  rw [needsBlocksync, if_neg (hid ▸ hgenesis _), hwalk, Option.map_some, missingRange, nextId, hmin]
  cases hlast : walk.getLast? with
  | none =>
    obtain rfl := getLast?_eq_none_iff.mp hlast
    rw [length_nil, if_pos (show 0 < delay * 2 by omega)]
    rfl
  | some last => rfl

/-- The blocks of a range, next to each other in the chain. -/
def Covers (chain : List (ConsensusFullBlock env)) (range : BlockRange T)
    (blocks : List (ConsensusFullBlock env)) : Prop :=
  ∃ above rest, chain = above ++ (blocks ++ rest) ∧ blocks.length = range.numBlocks ∧
    blocks.head?.map ConsensusFullBlock.getId = some range.lastBlockId

/-- The range is of the chain. Once its blocks are there the node has more blocks below the root,
and it needs no others. -/
def Completes (buffer : BlockBuffer env) (chain : List (ConsensusFullBlock env))
    (range : BlockRange T) : Prop :=
  ∃ blocks walk walk', Covers chain range blocks ∧ buffer.rootParentChain = some walk ∧
    (blocks.foldl handleBlocksync buffer).rootParentChain = some walk' ∧
    walk.length < walk'.length ∧
    (blocks.foldl handleBlocksync buffer).needsBlocksync = some none

/-- What is asked for is a part of the rest of the chain, if it is of the chain at all. -/
theorem Holds.length_le_of_covers (h : buffer.Holds delay (walk ++ chain)) {range : BlockRange T}
    (hlast : range.lastBlockId = nextId buffer.root walk)
    (hcovers : Covers (walk ++ chain) range blocks) : range.numBlocks ≤ chain.length := by
  obtain ⟨above, rest, heq, hlen, hhead⟩ := hcovers
  obtain ⟨c, hc, hid⟩ := Option.map_eq_some_iff.mp hhead
  have hrooted := h.rooted
  rw [heq] at hrooted
  obtain ⟨c', hc', hid'⟩ := hrooted.append.head (by rintro hnil; simp_all)
  have hsegment := hrooted.append.parentChain
  rw [← hid', show c' = c by simpa [hc] using hc'.symm, hid, hlast] at hsegment
  have hlonger := (h.rooted.append.isPrefix hinj hgenesis h.numbered (subset_append_right _ _)
    hsegment (heq ▸ subset_append_right _ _)).length_le
  rw [length_append, hlen] at hlonger
  omega

/-- **Catching up ends.** The range that is asked for is of the chain, and its blocks complete
what the node needs, if and only if the chain has as many blocks as the node wants. Otherwise
the range is not even of the chain. -/
theorem needsBlocksync_iff (hdelay : 1 ≤ delay) (h : buffer.Holds delay chain) (hne : chain ≠ []) :
    ∃ answer, buffer.needsBlocksync = some answer ∧
      ((∀ range ∈ answer, buffer.Completes chain range) ↔ delay * 2 ≤ chain.length) ∧
      ((∀ range ∈ answer, ∃ blocks, Covers chain range blocks) → delay * 2 ≤ chain.length) := by
  obtain ⟨walk, hwalk, rest, rfl⟩ := h.exists_walk hinj hgenesis
  refine ⟨_, h.needsBlocksync_eq hgenesis hne hdelay hwalk, ?_⟩
  rw [length_append]
  have hcovered : (∀ range ∈ if walk.length < delay * 2 then
      some (⟨nextId buffer.root walk, delay * 2 - walk.length⟩ : BlockRange T) else none,
      ∃ blocks, Covers (walk ++ rest) range blocks) → delay * 2 ≤ walk.length + rest.length := by
    intro hall
    by_contra hshort
    obtain ⟨blocks, hcovers⟩ := hall _ (if_pos (by omega))
    have := h.length_le_of_covers hinj hgenesis rfl hcovers
    dsimp only at this
    omega
  refine ⟨⟨fun hall => hcovered fun range hrange => ?_, fun hlen range hrange => ?_⟩, hcovered⟩
  · obtain ⟨blocks, -, -, hcovers, -⟩ := hall range hrange
    exact ⟨blocks, hcovers⟩
  split at hrange
  case isFalse => cases hrange
  case isTrue hlt =>
    cases hrange
    obtain ⟨k, hk⟩ : ∃ k, delay * 2 - walk.length = k := ⟨_, rfl⟩
    have hlength : (rest.take k).length = k := length_take_of_le (by omega)
    have hsub : rest.take k ⊆ walk ++ rest :=
      fun b hb => mem_append_right _ (mem_of_mem_take hb)
    obtain ⟨h', hfound⟩ := h.deliver hinj hgenesis hsub
    obtain ⟨walk', hwalk', -⟩ := h'.exists_walk hinj hgenesis
    have hlong : (walk ++ rest.take k).length ≤ walk'.length := by
      have hparent := h.rooted.parentChain.take (walk.length + k)
      rw [take_length_add_append] at hparent
      unfold rootParentChain at hwalk'
      rw [(foldl_handleBlocksync_frame _ _).1] at hwalk'
      refine length_le_parentChain hparent (fun b hb => ?_) hwalk'
      rcases mem_append.mp hb with hb | hb
      · exact included_foldl_handleBlocksync hinj _ _ _ b ((parentChain_spec hwalk).2.2 b hb)
      · exact hfound b hb
    rw [length_append, hlength] at hlong
    obtain ⟨c, hc, hid⟩ := h.rooted.append.head (by rintro rfl; simp at hlen; omega)
    refine ⟨rest.take k, walk, walk', ⟨walk, rest.drop k, by rw [take_append_drop],
      hlength.trans hk.symm, ?_⟩, hwalk, hwalk', by omega, ?_⟩
    · rw [head?_take, if_neg (by omega), hc, Option.map_some, hid]
    · rw [h'.needsBlocksync_eq hgenesis hne hdelay hwalk', if_neg (by omega)]

end Ids

end BlockBuffer

namespace Ideal

open BlockBuffer

/-- A node without blocks below its root. -/
def emptyBuffer (root : ConsensusFullBlock soleLeader) : BlockBuffer soleLeader :=
  .new soleLeader 1 root.getId 0

theorem needsBlocksync_iff_twoBlocks : ∃ range,
    (emptyBuffer orphan).needsBlocksync = some (some range) ∧
    (emptyBuffer orphan).Completes [orphan, oldBlock] range := by
  have hholds : (emptyBuffer orphan).Holds 1 [orphan, oldBlock] :=
    ⟨.cons rfl (.cons rfl .nil), ⟨rfl, rfl, trivial⟩, rfl, nil_subset _⟩
  obtain ⟨answer, hanswer, hiff, -⟩ := needsBlocksync_iff headerId_injective (fun _ h => by cases h)
    le_rfl hholds (cons_ne_nil _ _)
  cases hanswer
  exact ⟨_, rfl, hiff.mpr le_rfl _ rfl⟩

/-- A chain of one block: two blocks are asked for, and later the one before the first. -/
theorem needsBlocksync_below_first : (emptyBuffer oldBlock).Holds 1 [oldBlock] ∧
    (emptyBuffer oldBlock).needsBlocksync = some (some ⟨oldBlock.getId, 2⟩) ∧
    ((emptyBuffer oldBlock).handleBlocksync oldBlock).needsBlocksync =
      some (some ⟨soleLeader.GENESIS_BLOCK_ID, 1⟩) :=
  ⟨⟨.cons rfl .nil, ⟨rfl, trivial⟩, rfl, nil_subset _⟩, rfl, rfl⟩

end Ideal

end MonadBft
