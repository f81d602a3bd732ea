import MonadBft.BlockTree
import MonadBft.Numbered

/-!
# The blocks collected while a node syncs

A node that is not live yet collects blocks up to a committed block, the root. It takes
them from block sync and from the proposals it hears, and it may move to a later root
(`reRoot`) when the proposals finalize a block far above the present one
(`handleProposal`). `rootParentChain` is what it has below the root without a gap, and
`needsBlocksync` the blocks it still has to ask for.

The maps of the source are lists here. The id of a block or header is computed, so none
can sit under a foreign id. The walk along parent ids is given one more step than there are
blocks, and `none` would be a longer walk.

Blocks below a committed block are committed, and their sequence numbers go down by one
(`CommittedChain`). The walk then ends (`exists_rootParentChain`), and what it finds is
numbered without a gap (`ParentChain.numbered`).
-/

namespace MonadBft

open List

variable {T : Types}

def GENESIS_TIMESTAMP : ℕ := 0

def RootInfo.genesis (env : Env T) : RootInfo T where
  round := GENESIS_ROUND
  seqNum := GENESIS_SEQ_NUM
  epoch := 1
  blockId := env.GENESIS_BLOCK_ID
  timestampNs := GENESIS_TIMESTAMP

/-- Blocks pending while a node syncs. -/
structure BlockBuffer (env : Env T) where
  maxBufferedProposals : ℕ
  /-- How far above the root a finalized block must be to become the new root. -/
  resyncThreshold : ℕ
  /-- How many blocks a node needs to start from. -/
  minNumBlocks : ℕ
  root : T.BlockId
  /-- Blocks up to the root. -/
  fullBlocks : List (ConsensusFullBlock env)
  payloadCache : List (T.BlockBodyId × T.BlockBody)
  /-- Headers from the root on. -/
  blockHeaders : List (ConsensusBlockHeader T)
  /-- The last proposals, oldest first. -/
  proposalBuffer : List (NodeId × ProposalMessage T)

namespace BlockBuffer

variable {env : Env T}

def new (env : Env T) (executionDelay : ℕ) (root : T.BlockId) (resyncThreshold : ℕ) :
    BlockBuffer env where
  maxBufferedProposals := resyncThreshold
  resyncThreshold
  minNumBlocks := executionDelay * 2
  root
  fullBlocks := []
  payloadCache := []
  blockHeaders := []
  proposalBuffer := []

variable (buffer : BlockBuffer env)

def getFullBlock (id : T.BlockId) : Option (ConsensusFullBlock env) :=
  buffer.fullBlocks.find? fun b => decide (b.getId = id)

def getBlockHeader (id : T.BlockId) : Option (ConsensusBlockHeader T) :=
  buffer.blockHeaders.find? fun h => decide (env.getId h = id)

def insertFullBlock (block : ConsensusFullBlock env) (blocks : List (ConsensusFullBlock env)) :
    List (ConsensusFullBlock env) :=
  block :: blocks.filter fun b => decide (b.getId ≠ block.getId)

def rootInfo : Option (RootInfo T) :=
  if buffer.root = env.GENESIS_BLOCK_ID then some (.genesis env)
  else
    (buffer.getFullBlock buffer.root).map fun root =>
      { round := root.getBlockRound
        seqNum := root.getSeqNum
        epoch := root.header.epoch
        blockId := root.getId
        timestampNs := root.getTimestamp }

def rootSeqNum : Option ℕ := buffer.rootInfo.map RootInfo.seqNum

/-- The block that a proposal finalizes and the QC that does so, if that is a reason to sync
to a new root. The proposal is kept in any case, unless it is below the root. -/
def handleProposal (author : NodeId) (proposal : ProposalMessage T) :
    Except TreePanic (Option (ConsensusBlockHeader T × QuorumCertificate T) × BlockBuffer env) :=
  match buffer.rootSeqNum with
  | none => .ok (none, buffer)
  | some rootSeqNum =>
    let header := proposal.tip.blockHeader
    if header.seqNum < rootSeqNum then .ok (none, buffer)
    else
      let proposals := buffer.proposalBuffer ++ [(author, proposal)]
      let kept : BlockBuffer env :=
        { buffer with
          blockHeaders :=
            header :: buffer.blockHeaders.filter fun h => decide (env.getId h ≠ env.getId header)
          proposalBuffer :=
            if buffer.maxBufferedProposals < proposals.length then proposals.drop 1
            else proposals }
      match kept.getBlockHeader header.qc.getBlockId with
      | none => .ok (none, kept)
      | some qcParentBlock =>
        match header.qc.getCommittableId env qcParentBlock with
        | .error panic => .error panic
        | .ok none => .ok (none, kept)
        | .ok (some finalizedBlockId) =>
          match kept.getBlockHeader finalizedBlockId with
          | none => .ok (none, kept)
          | some finalizedBlock =>
            if finalizedBlock.seqNum ≤ rootSeqNum + buffer.resyncThreshold then .ok (none, kept)
            else .ok (some (finalizedBlock, header.qc), kept)

/-- A block from block sync. One above the root is not wanted. -/
def handleBlocksync (block : ConsensusFullBlock env) : BlockBuffer env :=
  if buffer.rootSeqNum.any fun rootSeqNum => decide (rootSeqNum < block.getSeqNum) then buffer
  else
    { buffer with
      payloadCache := Assoc.set buffer.payloadCache block.getBodyId block.body
      fullBlocks := insertFullBlock block buffer.fullBlocks }

/-- The block of a buffered proposal, if it is at most as high as the new root. -/
def blockUpTo (seqNum : ℕ) (proposal : NodeId × ProposalMessage T) :
    Option (ConsensusFullBlock env) :=
  if proposal.2.tip.blockHeader.seqNum ≤ seqNum then
    ConsensusFullBlock.new? env proposal.2.tip.blockHeader proposal.2.blockBody
  else none

/-- Move to a new root. Blocks too old to be of use are dropped, and the proposals up to the
root become blocks. -/
def reRoot (newRoot : ConsensusBlockHeader T) : BlockBuffer env :=
  let recent := buffer.fullBlocks.filter fun b =>
    decide (newRoot.seqNum ≤ b.getSeqNum + buffer.minNumBlocks)
  let fullBlocks := (buffer.proposalBuffer.filterMap (blockUpTo newRoot.seqNum)).foldl
    (fun blocks b => insertFullBlock b blocks) recent
  { buffer with
    fullBlocks
    blockHeaders := buffer.blockHeaders.filter fun h => decide (newRoot.seqNum ≤ h.seqNum)
    root := env.getId newRoot
    payloadCache := fullBlocks.map fun b => (b.getBodyId, b.body) }

/-- Walk along parent ids as long as the blocks are there. -/
def parentChain : ℕ → T.BlockId → Option (List (ConsensusFullBlock env))
  | 0, _ => none
  | fuel + 1, id =>
    match buffer.getFullBlock id with
    | none => some []
    | some block => (parentChain fuel block.getParentId).map (block :: ·)

/-- The blocks from the root downwards. -/
def rootParentChain : Option (List (ConsensusFullBlock env)) :=
  buffer.parentChain (buffer.fullBlocks.length + 1) buffer.root

/-- The blocks to ask for next, if a given chain below the root is not long enough. -/
def missingRange (chain : List (ConsensusFullBlock env)) : Option (BlockRange T) :=
  match chain.getLast? with
  | none => some { lastBlockId := buffer.root, numBlocks := buffer.minNumBlocks }
  | some last =>
    if chain.length < buffer.minNumBlocks then
      some { lastBlockId := last.getParentId, numBlocks := buffer.minNumBlocks - chain.length }
    else none

def needsBlocksync : Option (Option (BlockRange T)) :=
  if buffer.root = env.GENESIS_BLOCK_ID then some none
  else buffer.rootParentChain.map buffer.missingRange

variable {buffer} {id : T.BlockId} {b : ConsensusFullBlock env} {fuel : ℕ}
  {chain : List (ConsensusFullBlock env)}

theorem getFullBlock_eq_some (h : buffer.getFullBlock id = some b) :
    b ∈ buffer.fullBlocks ∧ b.getId = id :=
  ⟨mem_of_find?_eq_some h, by simpa using List.find?_some h⟩

theorem getBlockHeader_eq_some {header : ConsensusBlockHeader T}
    (h : buffer.getBlockHeader id = some header) : env.getId header = id := by
  simpa using List.find?_some h

theorem rootInfo_eq_some {info : RootInfo T} (hroot : buffer.root ≠ env.GENESIS_BLOCK_ID)
    (h : buffer.rootInfo = some info) :
    ∃ b, buffer.getFullBlock buffer.root = some b ∧ info.seqNum = b.getSeqNum ∧
      info.blockId = buffer.root := by
  unfold rootInfo at h
  rw [if_neg hroot] at h
  obtain ⟨b, hb, rfl⟩ := Option.map_eq_some_iff.mp h
  exact ⟨b, hb, rfl, (getFullBlock_eq_some hb).2⟩

theorem exists_rootInfo (hroot : buffer.root ≠ env.GENESIS_BLOCK_ID)
    (h : buffer.getFullBlock buffer.root = some b) :
    ∃ info, buffer.rootInfo = some info ∧ info.seqNum = b.getSeqNum ∧
      info.blockId = buffer.root := by
  refine ⟨_, by rw [rootInfo, if_neg hroot, h, Option.map_some], rfl, ?_⟩
  exact (getFullBlock_eq_some h).2

/-- A proposal leaves the root and the blocks as they are, and one that asks for a new root
finalizes it. The commit rule is applied to the block that the QC points to. -/
theorem handleProposal_spec (buffer : BlockBuffer env) (author : NodeId) (p : ProposalMessage T) :
    ∃ target buffer', buffer.handleProposal author p = .ok (target, buffer') ∧
      (buffer'.root = buffer.root ∧ buffer'.minNumBlocks = buffer.minNumBlocks ∧
        buffer'.fullBlocks = buffer.fullBlocks) ∧
      ∀ newRoot highQc, target = some (newRoot, highQc) → highQc = p.tip.blockHeader.qc ∧
        (∃ parent, highQc.getCommittableId env parent = .ok (some (env.getId newRoot))) ∧
        ∃ rootSeqNum, buffer.rootSeqNum = some rootSeqNum ∧ rootSeqNum < newRoot.seqNum := by
  unfold handleProposal
  split
  · exact ⟨_, _, rfl, ⟨rfl, rfl, rfl⟩, nofun⟩
  next rootSeqNum hroot =>
  dsimp only
  split
  · exact ⟨_, _, rfl, ⟨rfl, rfl, rfl⟩, nofun⟩
  split
  · exact ⟨_, _, rfl, ⟨rfl, rfl, rfl⟩, nofun⟩
  next parent hparent =>
  have hid := getBlockHeader_eq_some hparent
  split
  next hcommit =>
    unfold QuorumCertificate.getCommittableId at hcommit
    rw [if_pos (show p.tip.blockHeader.qc.info.id = env.getId parent from hid.symm)] at hcommit
    split at hcommit <;> cases hcommit
  · exact ⟨_, _, rfl, ⟨rfl, rfl, rfl⟩, nofun⟩
  next finalizedId hcommit =>
  split
  · exact ⟨_, _, rfl, ⟨rfl, rfl, rfl⟩, nofun⟩
  next finalized hfinalized =>
  split
  · exact ⟨_, _, rfl, ⟨rfl, rfl, rfl⟩, nofun⟩
  next hfar =>
  refine ⟨_, _, rfl, ⟨rfl, rfl, rfl⟩, ?_⟩
  rintro _ _ ⟨⟩
  refine ⟨rfl, ⟨parent, ?_⟩, rootSeqNum, hroot, by omega⟩
  rw [getBlockHeader_eq_some hfinalized]
  exact hcommit

theorem handleBlocksync_frame (block : ConsensusFullBlock env) :
    (buffer.handleBlocksync block).root = buffer.root ∧
      (buffer.handleBlocksync block).minNumBlocks = buffer.minNumBlocks := by
  unfold handleBlocksync
  split <;> exact ⟨rfl, rfl⟩

theorem foldl_handleBlocksync_frame (blocks : List (ConsensusFullBlock env))
    (buffer : BlockBuffer env) :
    (blocks.foldl handleBlocksync buffer).root = buffer.root ∧
      (blocks.foldl handleBlocksync buffer).minNumBlocks = buffer.minNumBlocks := by
  induction blocks generalizing buffer with
  | nil => exact ⟨rfl, rfl⟩
  | cons block blocks ih =>
    obtain ⟨hroot, hmin⟩ := ih (buffer.handleBlocksync block)
    obtain ⟨hroot', hmin'⟩ := @handleBlocksync_frame _ _ buffer block
    exact ⟨hroot.trans hroot', hmin.trans hmin'⟩

end BlockBuffer

/-! ## Chains of committed blocks -/

variable {env : Env T}

/-- Committed blocks: the parent of a committed block is committed and one lower. -/
structure CommittedChain (committed : ConsensusFullBlock env → Prop) : Prop where
  parent : ∀ {b b' : ConsensusFullBlock env}, committed b → b'.getId = b.getParentId →
    committed b' ∧ b.getSeqNum = b'.getSeqNum + 1

/-- Every block with this id is committed. -/
def IsCommitted (committed : ConsensusFullBlock env → Prop) (id : T.BlockId) : Prop :=
  ∀ b : ConsensusFullBlock env, b.getId = id → committed b

/-- Blocks that start with `id` and go on with the parent of each. -/
inductive ParentChain : T.BlockId → List (ConsensusFullBlock env) → Prop
  | nil (id : T.BlockId) : ParentChain id []
  | cons {id : T.BlockId} {b : ConsensusFullBlock env} {bs : List (ConsensusFullBlock env)} :
      b.getId = id → ParentChain b.getParentId bs → ParentChain id (b :: bs)

namespace ParentChain

variable {committed : ConsensusFullBlock env → Prop} {id : T.BlockId}
  {b : ConsensusFullBlock env} {chain : List (ConsensusFullBlock env)}

theorem take (h : ParentChain id chain) (n : ℕ) : ParentChain id (chain.take n) := by
  induction h generalizing n with
  | nil id =>
    rw [take_nil]
    exact .nil id
  | cons hb _ ih =>
    cases n with
    | zero => exact .nil _
    | succ n => exact .cons hb (ih n)

/-- From the last block on, each block is the parent of the next. -/
theorem linked (h : ParentChain id chain) :
    chain.reverse.IsChain fun b c => c.getParentId = b.getId := by
  rw [isChain_reverse]
  induction h with
  | nil => exact .nil
  | cons _ hbs ih =>
    cases hbs with
    | nil => exact .singleton _
    | cons hc _ => exact .cons_cons hc.symm ih

/-- The sequence numbers of committed blocks have no gap. -/
theorem numbered (hc : CommittedChain committed) (h : ParentChain id chain)
    (hid : IsCommitted committed id) (hhead : chain.head? = some b) :
    chain.length ≤ b.getSeqNum + 1 ∧
      Numbered ConsensusFullBlock.getSeqNum (b.getSeqNum + 1 - chain.length) chain.reverse := by
  induction h generalizing b with
  | nil => cases hhead
  | @cons id c bs hcid hbs ih =>
    obtain rfl : c = b := by simpa using hhead
    have hparent : ∀ b' : ConsensusFullBlock env, b'.getId = c.getParentId →
        committed b' ∧ c.getSeqNum = b'.getSeqNum + 1 := fun _ hb' => hc.parent (hid c hcid) hb'
    rw [length_cons, reverse_cons, Numbered.append_iff, length_reverse]
    cases hbs with
    | nil => exact ⟨Nat.le_add_left _ _, trivial, rfl, trivial⟩
    | @cons _ d ds hd hds =>
      have hseq := (hparent d hd).2
      obtain ⟨hlen, hnum⟩ := ih (fun b' hb' => (hparent b' hb').1) rfl
      have hstart : c.getSeqNum + 1 - ((d :: ds).length + 1) =
          d.getSeqNum + 1 - (d :: ds).length := by omega
      rw [hstart]
      exact ⟨by omega, hnum, by omega, trivial⟩

end ParentChain

namespace BlockBuffer

variable {buffer : BlockBuffer env} {committed : ConsensusFullBlock env → Prop} {id : T.BlockId}
  {b : ConsensusFullBlock env} {fuel : ℕ} {chain : List (ConsensusFullBlock env)}

theorem parentChain_spec (h : buffer.parentChain fuel id = some chain) :
    ParentChain id chain ∧ chain.head? = buffer.getFullBlock id ∧
      ∀ b ∈ chain, buffer.getFullBlock b.getId = some b := by
  fun_induction parentChain buffer fuel id generalizing chain with
  | case1 => cases h
  | case2 fuel id hnone =>
    cases h
    exact ⟨.nil id, hnone.symm, nofun⟩
  | case3 fuel id block hblock ih =>
    obtain ⟨rest, hrest, rfl⟩ := Option.map_eq_some_iff.mp h
    obtain ⟨hchain, -, hall⟩ := ih hrest
    obtain rfl := (getFullBlock_eq_some hblock).2
    exact ⟨.cons rfl hchain, hblock.symm, forall_mem_cons.mpr ⟨hblock, hall⟩⟩

/-- A walk that does not end has seen as many blocks as it was given steps. -/
theorem parentChain_eq_none (h : buffer.parentChain fuel id = none) :
    ∃ chain : List (ConsensusFullBlock env), ParentChain id chain ∧ chain.length = fuel ∧
      ∀ b ∈ chain, b ∈ buffer.fullBlocks := by
  fun_induction parentChain buffer fuel id with
  | case1 id => exact ⟨[], .nil id, rfl, by simp⟩
  | case2 => cases h
  | case3 fuel id block hblock ih =>
    obtain ⟨hmem, hid⟩ := getFullBlock_eq_some hblock
    obtain ⟨rest, hchain, hlen, hall⟩ := ih (Option.map_eq_none_iff.mp h)
    refine ⟨block :: rest, .cons hid hchain, by rw [length_cons, hlen], ?_⟩
    intro b hb
    rcases mem_cons.mp hb with rfl | hb
    · exact hmem
    · exact hall b hb

/-- Below a committed block the walk ends: it sees no block twice. -/
theorem exists_rootParentChain (hc : CommittedChain committed)
    (hroot : IsCommitted committed buffer.root) : ∃ chain, buffer.rootParentChain = some chain := by
  cases h : buffer.rootParentChain with
  | some chain => exact ⟨chain, rfl⟩
  | none =>
    obtain ⟨chain, hchain, hlen, hall⟩ := parentChain_eq_none h
    have hne : chain ≠ [] := by
      intro hnil
      rw [hnil] at hlen
      cases hlen
    obtain ⟨b, hb⟩ := Option.isSome_iff_exists.mp (isSome_head?.mpr hne)
    have hnum := (hchain.numbered hc hroot hb).2
    have hnodup : chain.Nodup := nodup_reverse.mp hnum.nodup
    have := (subperm_of_subset hnodup hall).length_le
    omega

/-- The blocks of one buffer are in another, up to their bodies. -/
def Included (buffer buffer' : BlockBuffer env) : Prop :=
  ∀ id b, buffer.getFullBlock id = some b →
    ∃ b', buffer'.getFullBlock id = some b' ∧ b'.header = b.header

theorem Included.refl (buffer : BlockBuffer env) : Included buffer buffer :=
  fun _ b hb => ⟨b, hb, rfl⟩

theorem Included.trans {buffer₁ buffer₂ buffer₃ : BlockBuffer env} (h : Included buffer₁ buffer₂)
    (h' : Included buffer₂ buffer₃) : Included buffer₁ buffer₃ := by
  intro id b hb
  obtain ⟨b', hb', heq⟩ := h id b hb
  obtain ⟨b'', hb'', heq'⟩ := h' id b' hb'
  exact ⟨b'', hb'', heq'.trans heq⟩

/-- The walk gets as far as there are blocks. -/
theorem length_le_parentChain (h : ParentChain id chain)
    (hall : ∀ b ∈ chain, ∃ b', buffer.getFullBlock b.getId = some b' ∧ b'.header = b.header)
    {chain' : List (ConsensusFullBlock env)} (h' : buffer.parentChain fuel id = some chain') :
    chain.length ≤ chain'.length := by
  induction h generalizing fuel chain' with
  | nil => exact Nat.zero_le _
  | cons hb _ ih =>
    obtain ⟨⟨b', hb', heq⟩, hrest⟩ := forall_mem_cons.mp hall
    cases fuel with
    | zero => cases h'
    | succ fuel =>
      unfold parentChain at h'
      rw [hb] at hb'
      simp only [hb'] at h'
      obtain ⟨rest', hrest', rfl⟩ := Option.map_eq_some_iff.mp h'
      rw [ConsensusFullBlock.getParentId, heq] at hrest'
      exact Nat.succ_le_succ (ih hrest hrest')

/-- Blocks from block sync are added to those that are there. -/
theorem included_handleBlocksync (hinj : Function.Injective env.getId)
    (block : ConsensusFullBlock env) : Included buffer (buffer.handleBlocksync block) := by
  intro id b hb
  unfold handleBlocksync
  split
  · exact ⟨b, hb, rfl⟩
  unfold getFullBlock insertFullBlock
  rw [List.find?_cons]
  by_cases hid : block.getId = id
  · rw [decide_eq_true hid]
    exact ⟨block, rfl, hinj (hid.trans (getFullBlock_eq_some hb).2.symm)⟩
  rw [decide_eq_false hid]
  refine ⟨b, ?_, rfl⟩
  -- the removed block does not have the id that is looked for
  dsimp only
  rw [List.find?_filter]
  refine Eq.trans ?_ hb
  congr 1
  funext c
  by_cases hc : c.getId = id
  · simp [hc, Ne.symm hid]
  · simp [hc]

theorem included_foldl_handleBlocksync (hinj : Function.Injective env.getId)
    (blocks : List (ConsensusFullBlock env)) (buffer : BlockBuffer env) :
    Included buffer (blocks.foldl handleBlocksync buffer) := by
  induction blocks generalizing buffer with
  | nil => exact .refl buffer
  | cons block blocks ih => exact (included_handleBlocksync hinj block).trans (ih _)

/-- The chain below the root is as long as it needs to be. -/
def Complete (buffer : BlockBuffer env) : Prop :=
  ∃ chain, buffer.rootParentChain = some chain ∧ buffer.minNumBlocks ≤ chain.length

/-- A chain that is long enough stays so as blocks arrive. -/
theorem Complete.mono {buffer' : BlockBuffer env} (hc : CommittedChain committed)
    (hcommitted : IsCommitted committed buffer.root) (hsub : Included buffer buffer')
    (hroot : buffer'.root = buffer.root) (hmin : buffer'.minNumBlocks = buffer.minNumBlocks)
    (h : buffer.Complete) : buffer'.Complete := by
  obtain ⟨chain, hchain, hlen⟩ := h
  obtain ⟨chain', hchain'⟩ : ∃ chain', buffer'.rootParentChain = some chain' :=
    exists_rootParentChain hc (hroot ▸ hcommitted)
  refine ⟨chain', hchain', ?_⟩
  unfold rootParentChain at hchain hchain'
  rw [hroot] at hchain'
  rw [hmin]
  obtain ⟨hparent, -, hall⟩ := parentChain_spec hchain
  exact hlen.trans (length_le_parentChain hparent (fun b hb => hsub _ b (hall b hb)) hchain')

end BlockBuffer

end MonadBft
