import MonadBft.VoteState

/-!
# The block tree

Uncommitted blocks above the last committed block (the root). `add` inserts a block,
`tryUpdateCoherency` marks blocks whose execution inputs check out, from the first
incoherent block of a path downwards, and `prune` commits the path to a new root and
deletes the blocks whose QC is older than it.

The source keeps the blocks in a hash map by block id. Here they are a list of entries,
and the id of an entry is computed from its block, so an entry cannot sit under a foreign
id. A block carries the proof that its body is the one its header names.

The loops of the source follow parent or child links. Each takes as many steps as there
are entries at most; `endlessWalk` would be a longer run.
-/

namespace MonadBft

variable (T : Types)

/-- The last committed block. -/
structure RootInfo where
  round : ℕ
  seqNum : ℕ
  epoch : ℕ
  blockId : T.BlockId
  timestampNs : ℕ
  deriving DecidableEq

/-- Blocks to request: `numBlocks` blocks that end in `lastBlockId`. -/
structure BlockRange where
  lastBlockId : T.BlockId
  numBlocks : ℕ
  deriving DecidableEq

variable {T}

/-- A header with the body it names. -/
structure ConsensusFullBlock (env : Env T) where
  header : ConsensusBlockHeader T
  body : T.BlockBody
  body_matches : env.getBodyId body = header.blockBodyId

namespace ConsensusFullBlock

variable {env : Env T} (b : ConsensusFullBlock env)

/-- A block is built only from a header and its own body. -/
def new? (env : Env T) (header : ConsensusBlockHeader T) (body : T.BlockBody) :
    Option (ConsensusFullBlock env) :=
  if h : env.getBodyId body = header.blockBodyId then some ⟨header, body, h⟩ else none

def getId : T.BlockId := env.getId b.header

def getParentId : T.BlockId := b.header.getParentId

def getBodyId : T.BlockBodyId := b.header.blockBodyId

def getBlockRound : ℕ := b.header.blockRound

/-- The round of the QC the block carries. -/
def getParentRound : ℕ := b.header.qc.getRound

def getSeqNum : ℕ := b.header.seqNum

def getTimestamp : ℕ := b.header.timestampNs

end ConsensusFullBlock

/-- A block of the tree with its children. -/
structure BlockTreeEntry (env : Env T) where
  validatedBlock : ConsensusFullBlock env
  isCoherent : Bool
  childrenBlocks : List T.BlockId

def BlockTreeEntry.getId {env : Env T} (e : BlockTreeEntry env) : T.BlockId :=
  e.validatedBlock.getId

def BlockTreeEntry.addChild {env : Env T} (child : T.BlockId) (e : BlockTreeEntry env) :
    BlockTreeEntry env :=
  { e with childrenBlocks := e.childrenBlocks ++ [child] }

def BlockTreeEntry.setCoherent {env : Env T} (coherent : Bool) (e : BlockTreeEntry env) :
    BlockTreeEntry env :=
  { e with isCoherent := coherent }

variable (T) in
/-- A body and the blocks of the tree that have it. -/
structure BlockBodyIndex where
  body : T.BlockBody
  activeBlocks : List T.BlockId

structure Tree (env : Env T) where
  entries : List (BlockTreeEntry env)
  payloads : List (T.BlockBodyId × BlockBodyIndex T)

namespace Tree

variable {env : Env T} (t : Tree env)

def get? (id : T.BlockId) : Option (BlockTreeEntry env) :=
  t.entries.find? fun e => decide (e.getId = id)

def containsKey (id : T.BlockId) : Bool := (t.get? id).isSome

def update (id : T.BlockId) (f : BlockTreeEntry env → BlockTreeEntry env) : Tree env :=
  { t with entries := t.entries.map fun e => if e.getId = id then f e else e }

def setCoherent (id : T.BlockId) (coherent : Bool) : Option (Tree env) :=
  if t.containsKey id then some (t.update id (BlockTreeEntry.setCoherent coherent)) else none

/-- Remove a block, and its body if no other block has it. -/
def remove (id : T.BlockId) : Except TreePanic (Option (BlockTreeEntry env) × Tree env) :=
  match t.get? id with
  | none => .ok (none, t)
  | some removed =>
    let bodyId := removed.validatedBlock.getBodyId
    match Assoc.get? t.payloads bodyId with
    | none => .error .payloadIndexMissing
    | some index =>
      if id ∉ index.activeBlocks then .error .payloadIndexMissing
      else
        let active := index.activeBlocks.filter fun b => decide (b ≠ id)
        .ok (some removed,
          { entries := t.entries.filter fun e => decide (e.getId ≠ id)
            payloads :=
              if active = [] then t.payloads.filter fun p => decide (p.1 ≠ bodyId)
              else Assoc.set t.payloads bodyId { index with activeBlocks := active } })

/-- The entry of a new block: not coherent, with the blocks of the tree that extend it as
children. -/
def newEntry (block : ConsensusFullBlock env) : BlockTreeEntry env where
  validatedBlock := block
  isCoherent := false
  childrenBlocks := (t.entries.filter fun e =>
    decide (e.validatedBlock.getParentId = block.getId)).map BlockTreeEntry.getId

/-- Insert a block, and make it a child of its parent. -/
def insert (block : ConsensusFullBlock env) : Except TreePanic (Tree env) :=
  let newBlockId := block.getId
  let index := (Assoc.get? t.payloads block.getBodyId).getD ⟨block.body, []⟩
  if t.containsKey newBlockId then .error .alreadyInTree
  else if newBlockId ∈ index.activeBlocks then .error .alreadyInTree
  else
    let tree : Tree env :=
      { entries := t.newEntry block :: t.entries
        payloads := Assoc.set t.payloads block.getBodyId
          { index with activeBlocks := index.activeBlocks ++ [newBlockId] } }
    .ok (tree.update block.getParentId (BlockTreeEntry.addChild newBlockId))

def removeAll : List T.BlockId → Tree env → Except TreePanic (Tree env)
  | [], t => .ok t
  | id :: ids, t =>
    match t.remove id with
    | .error e => .error e
    | .ok (_, t') => removeAll ids t'

end Tree

structure BlockTree (env : Env T) where
  root : RootInfo T
  /-- The blocks of the tree that extend the root. -/
  rootChildren : List T.BlockId
  tree : Tree env

namespace BlockTree

variable {env : Env T}

def new (root : RootInfo T) : BlockTree env := ⟨root, [], ⟨[], []⟩⟩

variable (bt : BlockTree env)

def size : ℕ := bt.tree.entries.length

def isCoherent (b : T.BlockId) : Bool :=
  if b = bt.root.blockId then true
  else
    match bt.tree.get? b with
    | some entry => entry.isCoherent
    | none => false

/-- Note that the root has no block here. -/
def getBlock (id : T.BlockId) : Option (ConsensusFullBlock env) :=
  (bt.tree.get? id).map BlockTreeEntry.validatedBlock

def isValidToInsert (b : ConsensusBlockHeader T) : Bool :=
  !bt.tree.containsKey (env.getId b) && decide (bt.root.round < b.blockRound)

/-! ## Paths -/

/-- Follow parents from `visit` to the root. -/
def walkToRoot : ℕ → T.BlockId → List (ConsensusFullBlock env) →
    Option (List (ConsensusFullBlock env))
  | 0, _, _ => none
  | fuel + 1, visit, blocks =>
    match bt.tree.get? visit with
    | none => none
    | some entry =>
      let btb := entry.validatedBlock
      if btb.getParentId = bt.root.blockId then some (btb :: blocks)
      else walkToRoot fuel btb.getParentId (btb :: blocks)

/-- The blocks from the root to `b`, without the root. -/
def getBlocksOnPathFromRoot (b : T.BlockId) : Option (List (ConsensusFullBlock env)) :=
  if b = bt.root.blockId then some [] else bt.walkToRoot (bt.size + 1) b []

def getHighestCoherentBlockOnPathFromRoot (b : T.BlockId) : Option (ConsensusFullBlock env) :=
  (bt.getBlocksOnPathFromRoot b).bind fun path =>
    path.reverse.find? fun block => bt.isCoherent block.getId

/-- Follow parents of known blocks from `unknown`. -/
def walkToGap : ℕ → T.BlockId → ℕ → Except TreePanic (Option (BlockRange T))
  | 0, _, _ => .error .endlessWalk
  | fuel + 1, unknown, numBlocks =>
    match bt.tree.get? unknown with
    | none => .ok (some { lastBlockId := unknown, numBlocks })
    | some entry =>
      let known := entry.validatedBlock
      if known.getParentId = bt.root.blockId then .ok none
      else if known.getSeqNum < bt.root.seqNum then .error .seqNumUnderflow
      else walkToGap fuel known.getParentId (max (known.getSeqNum - bt.root.seqNum) 2 - 1)

/-- The blocks to request so that the path from `qc` to the root is complete. -/
def maybeFillPathToRoot (qc : QuorumCertificate T) : Except TreePanic (Option (BlockRange T)) :=
  if qc.getRound ≤ bt.root.round ∨ bt.root.blockId = qc.getBlockId then .ok none
  else bt.walkToGap (bt.size + 1) qc.getBlockId 1

/-- What is known of the block a QC certifies. -/
def ofQc (rootValue : RootInfo T → ℕ) (blockValue : ConsensusFullBlock env → ℕ)
    (qc : QuorumCertificate T) : Option ℕ :=
  if bt.root.blockId = qc.getBlockId then some (rootValue bt.root)
  else (bt.getBlock qc.getBlockId).map blockValue

def getSeqNumOfQc : QuorumCertificate T → Option ℕ :=
  bt.ofQc RootInfo.seqNum ConsensusFullBlock.getSeqNum

def getTimestampOfQc : QuorumCertificate T → Option ℕ :=
  bt.ofQc RootInfo.timestampNs ConsensusFullBlock.getTimestamp

def getBlockRoundOfQc : QuorumCertificate T → Option ℕ :=
  bt.ofQc RootInfo.round ConsensusFullBlock.getBlockRound

def children (id : T.BlockId) : List T.BlockId :=
  if id = bt.root.blockId then bt.rootChildren
  else ((bt.tree.get? id).map BlockTreeEntry.childrenBlocks).getD []

/-- The coherent child of highest round among those of the queue's blocks, their coherent
children, and so on, or `best` if none is above it. -/
def bestDescendant : ℕ → List T.BlockId → T.BlockId × ℕ → T.BlockId × ℕ
  | 0, _, best => best
  | _, [], best => best
  | fuel + 1, id :: queue, best =>
    let kids := (bt.children id).filterMap fun child =>
      if bt.isCoherent child then (bt.getBlock child).map fun b => (child, b.getBlockRound)
      else none
    bestDescendant fuel (queue ++ kids.map Prod.fst)
      (kids.foldl (fun best kid => if best.2 < kid.2 then kid else best) best)

def highestRoundCoherentDescendant (id : T.BlockId) : T.BlockId :=
  let round := if id = bt.root.blockId then some bt.root.round
    else (bt.getBlock id).map ConsensusFullBlock.getBlockRound
  match round with
  | none => id
  | some round => (bt.bestDescendant (bt.size + 1) [id] (id, round)).1

/-- The highest coherent block on the chain of the high QC. -/
def getCanonicalCoherentTip (highCertQc : QuorumCertificate T) : T.BlockId :=
  match bt.getBlocksOnPathFromRoot highCertQc.getBlockId with
  | none => bt.highestRoundCoherentDescendant bt.root.blockId
  | some path =>
    match path.reverse.find? fun block => bt.isCoherent block.getId with
    | none => bt.root.blockId
    | some block =>
      if block.getId = highCertQc.getBlockId then bt.highestRoundCoherentDescendant block.getId
      else block.getId

/-! ## Adding blocks -/

def add (block : ConsensusFullBlock env) : Except TreePanic (BlockTree env) :=
  if bt.isValidToInsert block.header then
    match bt.tree.insert block with
    | .error e => .error e
    | .ok tree =>
      .ok { bt with
        tree
        rootChildren :=
          if block.getParentId = bt.root.blockId then bt.rootChildren ++ [block.getId]
          else bt.rootChildren }
  else .ok bt

/-! ## Coherency -/

/-- Whether a block's execution inputs check out, given the blocks it extends. -/
abbrev CheckCoherency (env : Env T) :=
  ConsensusFullBlock env → List (ConsensusFullBlock env) → RootInfo T → Bool

def firstIncoherent : List (ConsensusFullBlock env) →
    Except TreePanic (Option (ConsensusFullBlock env))
  | [] => .ok none
  | block :: blocks =>
    match bt.tree.get? block.getId with
    | none => .error .notInTree
    | some entry => if entry.isCoherent then firstIncoherent blocks else .ok (some block)

/-- Check the queued blocks, and the children of those that are coherent. -/
def updateQueue (check : CheckCoherency env) : ℕ → List T.BlockId → BlockTree env →
    Except TreePanic (List (ConsensusFullBlock env) × BlockTree env)
  | _, [], bt => .ok ([], bt)
  | 0, _ :: _, _ => .error .endlessWalk
  | fuel + 1, id :: queue, bt =>
    match bt.getBlocksOnPathFromRoot id with
    | none => .error .noPathToRoot
    | some path =>
      match path.getLast? with
      | none => .error .noPathToRoot
      | some block =>
        if check block path.dropLast bt.root then
          match bt.tree.setCoherent id true with
          | none => .error .notInTree
          | some tree =>
            match tree.get? id with
            | none => .error .notInTree
            | some entry =>
              match updateQueue check fuel (queue ++ entry.childrenBlocks) { bt with tree } with
              | .error e => .error e
              | .ok (blocks, bt') => .ok (block :: blocks, bt')
        else updateQueue check fuel queue bt

/-- Update the coherency of a block, from the first incoherent block of its path on.
Returns the blocks that became coherent. -/
def tryUpdateCoherency (check : CheckCoherency env) (id : T.BlockId) :
    Except TreePanic (List (ConsensusFullBlock env) × BlockTree env) :=
  match bt.getBlocksOnPathFromRoot id with
  | none => .ok ([], bt)
  | some path =>
    match bt.firstIncoherent path with
    | .error e => .error e
    | .ok none => .ok ([], bt)
    | .ok (some block) => updateQueue check (bt.size + 1) [block.getId] bt

/-! ## Committing -/

/-- Walk up from the removed `entry` to the root, removing blocks. -/
def commitPath (rootId : T.BlockId) : ℕ → Tree env → BlockTreeEntry env →
    List (ConsensusFullBlock env) → Except TreePanic (List (ConsensusFullBlock env) × Tree env)
  | 0, _, _, _ => .error .endlessWalk
  | fuel + 1, tree, entry, commit =>
    if entry.isCoherent then
      let block := entry.validatedBlock
      if block.getParentId = rootId then .ok (block :: commit, tree)
      else
        match tree.remove block.getParentId with
        | .error e => .error e
        | .ok (none, _) => .error .noPathToRoot
        | .ok (some parent, tree') => commitPath rootId fuel tree' parent (block :: commit)
    else .error .pruneIncoherent

/-- Make `newRoot` the root. Returns the blocks committed, oldest first, and deletes the
blocks whose QC is older than the new root. -/
def prune (newRoot : T.BlockId) : Except TreePanic (List (ConsensusFullBlock env) × BlockTree env) :=
  if !bt.isCoherent newRoot then .error .pruneIncoherent
  else if newRoot = bt.root.blockId then .ok ([], bt)
  else
    match bt.tree.remove newRoot with
    | .error e => .error e
    | .ok (none, _) => .error .notInTree
    | .ok (some entry, tree) =>
      match commitPath bt.root.blockId (bt.size + 1) tree entry [] with
      | .error e => .error e
      | .ok (commit, tree) =>
        let block := entry.validatedBlock
        let obsolete := (tree.entries.filter fun e =>
          decide (e.validatedBlock.getParentRound < block.getBlockRound)).map BlockTreeEntry.getId
        match Tree.removeAll obsolete tree with
        | .error e => .error e
        | .ok tree =>
          .ok (commit,
            { root :=
                { round := block.getBlockRound, seqNum := block.getSeqNum
                  epoch := block.header.epoch, blockId := block.getId
                  timestampNs := block.getTimestamp }
              rootChildren := entry.childrenBlocks
              tree })

/-- The highest QC in the subtree of the queued blocks that commits a coherent block. -/
def highCommittable : ℕ → List T.BlockId → Option (QuorumCertificate T) →
    Except TreePanic (Option (QuorumCertificate T))
  | _, [], high => .ok high
  | 0, _ :: _, _ => .error .endlessWalk
  | fuel + 1, id :: queue, high =>
    match bt.tree.get? id with
    | none => .error .notInTree
    | some entry =>
      let queue := queue ++ entry.childrenBlocks
      let qc := entry.validatedBlock.header.qc
      if high.any fun high => decide (qc.getRound ≤ high.getRound) then
        highCommittable fuel queue high
      else
        match bt.tree.get? qc.getBlockId with
        | none => highCommittable fuel queue high
        | some qcParent =>
          match qc.getCommittableId env qcParent.validatedBlock.header with
          | .error e => .error e
          | .ok none => highCommittable fuel queue high
          | .ok (some committable) =>
            if committable = bt.root.blockId then highCommittable fuel queue high
            else if !bt.isCoherent committable then highCommittable fuel queue high
            else highCommittable fuel queue (some qc)

/-- The highest QC in the tree that commits something, if there is one. -/
def getHighCommittableQc : Except TreePanic (Option (QuorumCertificate T)) :=
  bt.highCommittable (bt.size + 1) bt.rootChildren none

end BlockTree

end MonadBft
