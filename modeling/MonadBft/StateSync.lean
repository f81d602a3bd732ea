import MonadBft.BlockBuffer
import MonadBft.Consensus

/-!
# The sync phase of a node

Before it is live, a node needs the last `2 * executionDelay` committed blocks up to its root
(block sync) and the execution state of the block `executionDelay` below the root
(statesync). `SyncState` is what it keeps meanwhile. The root is moved by `requestSync` when
the chain has run away, `doneSync` reports an execution state, and `maybeStartConsensus`
checks whether the node can go live, which hands the committed blocks to the block policy,
the transaction pool and the ledger.

The assertions and `expect`s of these handlers are the cases of `SyncPanic`. Two of them are
announced in the code (`SyncPanic.isDocumented`): the database is empty, and a block that
the majority committed is invalid.

A `System` is the node together with the events that wait in the loopback queue and with what
the executors owe it: block ranges it asked for and headers it asked to sync to. Events are
admitted (`Input.Admissible`) in the order in which `ParentExecutor` polls: nothing from the
network or from statesync while the loopback queue holds something. Once execution has
started, statesync is over.
-/

namespace MonadBft

variable {T : Types}

/-! ## State -/

/-- The header of an executed block, of which only its number is used here. -/
structure FinalizedHeader where
  number : ℕ
  deriving DecidableEq

structure ValidatorData where
  nodeId : NodeId
  stake : ℕ
  certPubkey : ℕ
  deriving DecidableEq

/-- The validators of an epoch, as recorded in a forkpoint. -/
structure ValidatorSetDataWithEpoch where
  epoch : ℕ
  validators : List ValidatorData
  deriving DecidableEq

/-- The stake and key of a node in a map made of a list. -/
def valData (validators : List ValidatorData) (nodeId : NodeId) : Option (ℕ × ℕ) :=
  (validators.reverse.find? fun v => decide (v.nodeId = nodeId)).map fun v =>
    (v.stake, v.certPubkey)

/-- Two lists make the same map. -/
def sameValData (validators validators' : List ValidatorData) : Bool :=
  (validators ++ validators').all fun v =>
    decide (valData validators v.nodeId = valData validators' v.nodeId)

inductive DbSyncStatus where
  | waiting
  | started
  | done
  deriving DecidableEq

/-- What the sync phase takes from the configuration, and how it reads blocks. -/
structure SyncConfig (env : Env T) where
  executionDelay : ℕ
  /-- How far a finalized block must be above the root to become the new one. -/
  statesyncToLiveThreshold : ℕ
  /-- From this epoch on validators are read from the state. -/
  stakingActivation : ℕ
  epochManager : EpochManager
  /-- The execution results that a header carries. -/
  executionResults : T.ExecutionInputs → List FinalizedHeader
  /-- The verdict of the block validator. -/
  validateBlock : ConsensusFullBlock env → Bool

variable (T) in
/-- The database at some moment. -/
structure SyncBackend where
  /-- Whether there is an execution result for a finalized block. -/
  getExecutionResult : T.BlockId → ℕ → Bool
  /-- The validators of an epoch in the state of a block. -/
  readValsetAtBlock : ℕ → ℕ → List ValidatorData

structure SyncState (env : Env T) where
  highCertificate : RoundCertificate T
  blockBuffer : BlockBuffer env
  dbStatus : DbSyncStatus
  /-- A new root has been asked for. -/
  updatingTarget : Bool
  lockedEpochValidators : List ValidatorSetDataWithEpoch

inductive ConsensusMode (env : Env T) where
  | sync (state : SyncState env)
  | live (node : Node env)

def ConsensusMode.isLive {env : Env T} : ConsensusMode env → Bool
  | sync _ => false
  | live _ => true

/-- Where the sync phase would stop. -/
inductive SyncPanic where
  /-- `RequestSync` while live. -/
  | requestSyncWhileLive
  /-- `DoneSync` while live. -/
  | doneSyncWhileLive
  /-- `maybe_start_consensus` while live. -/
  | startWhileLive
  /-- `DoneSync`: the database is synced already. -/
  | dbAlreadySynced
  /-- `DoneSync`: a block above the target. -/
  | aboveTarget
  /-- `DoneSync`: the target is reached but has not been asked for. -/
  | targetNotStarted
  | rootUnknown
  /-- The chain below the root should have `executionDelay` blocks. -/
  | delayChildMissing
  | emptyDatabase
  /-- There should be one execution result. -/
  | executionResultCount
  /-- The majority committed an invalid block. -/
  | invalidCommittedBlock
  /-- The validators of a locked epoch are not those of the database. -/
  | unexpectedLockedValset
  /-- The walk below the root does not end. -/
  | endlessWalk
  /-- A failure of the commit rule. -/
  | tree (panic : TreePanic)
  /-- A failure in `ConsensusState::new`. -/
  | consensus (panic : Panic)
  deriving DecidableEq

/-- The failures that the code announces. -/
def SyncPanic.isDocumented : SyncPanic → Bool
  | emptyDatabase | invalidCommittedBlock => true
  | _ => false

/-- What a node that syncs asks for or does. -/
inductive SyncCommand (env : Env T) where
  /-- Blocks are asked of block sync. -/
  | selfRequest (range : BlockRange T)
  /-- `RequestSync` is put into the loopback queue. -/
  | forwardRequestSync (root : ConsensusBlockHeader T) (highQc : QuorumCertificate T)
  /-- The execution state of a header is asked of statesync. -/
  | requestSync (header : FinalizedHeader)
  /-- `block_policy.reset`. -/
  | resetBlockPolicy (blocks : List (ConsensusFullBlock env))
  | txPoolReset (blocks : List (ConsensusFullBlock env))
  | ledgerCommit (commit : OptimisticPolicyCommit env)
  | notifyFinalized (seqNum : ℕ)
  | startExecution
  /-- An event for the node that is live now. -/
  | consensus (event : Event env)
  | requestBlocksIfMissingAncestor

namespace SyncCommand

variable {env : Env T}

def selfRequest? : SyncCommand env → Option (BlockRange T)
  | selfRequest range => some range
  | _ => none

def requestSync? : SyncCommand env → Option ℕ
  | requestSync header => some header.number
  | _ => none

def resetBlockPolicy? : SyncCommand env → Option (List (ConsensusFullBlock env))
  | resetBlockPolicy blocks => some blocks
  | _ => none

def txPoolReset? : SyncCommand env → Option (List (ConsensusFullBlock env))
  | txPoolReset blocks => some blocks
  | _ => none

def isStartExecution : SyncCommand env → Bool
  | startExecution => true
  | _ => false

/-- A committed block is handed to the ledger, as proposed and as finalized. -/
def commitBlock (block : ConsensusFullBlock env) : List (SyncCommand env) :=
  [.ledgerCommit (.proposed block true), .ledgerCommit (.finalized block),
    .notifyFinalized block.getSeqNum]

end SyncCommand

/-! ## Handlers -/

namespace SyncState

variable {env : Env T} (cfg : SyncConfig env) (backend : SyncBackend T)

/-- What a handler leaves: the mode and the commands. -/
abbrev Outcome (env : Env T) := Except SyncPanic (ConsensusMode env × List (SyncCommand env))

/-- The number of the block whose execution state is needed. -/
def delaySeqNum (rootSeqNum : ℕ) : ℕ := max rootSeqNum cfg.executionDelay - cfg.executionDelay

/-- The execution results in the root block. -/
def rootDelayedExecutionResult (s : SyncState env) : Option (List FinalizedHeader) :=
  (s.blockBuffer.getFullBlock s.blockBuffer.root).map fun root =>
    cfg.executionResults root.header.executionInputs

/-- The blocks still to be asked for, or the chain below the root and the root. -/
def committedBlocks (s : SyncState env) :
    Except SyncPanic (BlockRange T ⊕ List (ConsensusFullBlock env) × RootInfo T) :=
  match s.blockBuffer.rootParentChain, s.blockBuffer.needsBlocksync with
  | some _, some (some range) => .ok (.inl range)
  | some rootParentChain, some none =>
    match s.blockBuffer.rootInfo with
    | some rootInfo => .ok (.inr (rootParentChain, rootInfo))
    | none => .error .rootUnknown
  | _, _ => .error .endlessWalk

/-- Whether the database agrees on the validators of the locked epochs. -/
def lockedValsetsHeld (s : SyncState env) (seqNum : ℕ) : Bool :=
  s.lockedEpochValidators.all fun locked =>
    !decide (cfg.stakingActivation ≤ locked.epoch) ||
      sameValData locked.validators (backend.readValsetAtBlock seqNum locked.epoch)

/-- The events a node handles as soon as it is live. -/
def firstEvents (s : SyncState env) (round : ℕ) : List (SyncCommand env) :=
  [.consensus (.voteTimer round), .consensus (.timeoutExpiry round)] ++
    s.blockBuffer.proposalBuffer.map (fun p => .consensus (.message p.1 (.proposal p.2))) ++
    [.requestBlocksIfMissingAncestor]

/-- The last committed blocks are handed over, and the node goes live. -/
def startConsensus (s : SyncState env) (rootParentChain : List (ConsensusFullBlock env))
    (rootInfo : RootInfo T) : Outcome env :=
  let recent := rootParentChain.take (cfg.executionDelay * 2)
  if recent.all cfg.validateBlock then
    if s.lockedValsetsHeld cfg backend (delaySeqNum cfg rootInfo.seqNum) then
      match Node.new env cfg.epochManager rootInfo s.highCertificate with
      | .error panic => .error (.consensus panic)
      | .ok node =>
        let lastTwoDelayCommittedBlocks := recent.reverse
        .ok (.live node,
          [.resetBlockPolicy lastTwoDelayCommittedBlocks,
            .txPoolReset lastTwoDelayCommittedBlocks] ++
          lastTwoDelayCommittedBlocks.flatMap SyncCommand.commitBlock ++
          [.startExecution] ++ s.firstEvents node.getCurrentRound)
    else .error .unexpectedLockedValset
  else .error .invalidCommittedBlock

/-- `maybe_start_consensus` once the database is synced. -/
def maybeStartSynced (s : SyncState env) : Outcome env :=
  match s.committedBlocks with
  | .error panic => .error panic
  | .ok (.inl range) => .ok (.sync s, [.selfRequest range])
  | .ok (.inr (rootParentChain, rootInfo)) => s.startConsensus cfg backend rootParentChain rootInfo

/-- The execution state of block `n` is there. A block below the target is an old target. -/
def doneSync (n : ℕ) (s : SyncState env) : Outcome env :=
  if s.dbStatus = .done then .error .dbAlreadySynced
  else
    match s.blockBuffer.rootSeqNum.map (delaySeqNum cfg) with
    | none => .ok (.sync s, [])
    | some target =>
      if n < target then .ok (.sync s, [])
      else if n ≠ target then .error .aboveTarget
      else if s.dbStatus ≠ .started then .error .targetNotStarted
      else maybeStartSynced cfg backend { s with dbStatus := .done }

/-- The id of the block whose execution state is needed: the parent of the block after it. -/
def delayBlockId (rootParentChain : List (ConsensusFullBlock env)) (rootSeqNum : ℕ) :
    Except SyncPanic T.BlockId :=
  match rootParentChain.find? fun b =>
      decide (b.getSeqNum = delaySeqNum cfg rootSeqNum + 1) with
  | some delayChild => .ok delayChild.getParentId
  | none =>
    if rootSeqNum = GENESIS_SEQ_NUM then .ok env.GENESIS_BLOCK_ID else .error .delayChildMissing

/-- Ask statesync for the execution state, unless it is there. -/
def startDb (s : SyncState env) (rootParentChain : List (ConsensusFullBlock env))
    (rootInfo : RootInfo T) : Outcome env :=
  let s := { s with dbStatus := .started }
  match delayBlockId cfg rootParentChain rootInfo.seqNum with
  | .error panic => .error panic
  | .ok id =>
    if backend.getExecutionResult id (delaySeqNum cfg rootInfo.seqNum) then
      doneSync cfg backend (delaySeqNum cfg rootInfo.seqNum) s
    else
      match s.rootDelayedExecutionResult cfg with
      | none => .error .emptyDatabase
      | some [header] => .ok (.sync s, [.requestSync header])
      | some _ => .error .executionResultCount

def maybeStartConsensus (s : SyncState env) : Outcome env :=
  match s.committedBlocks with
  | .error panic => .error panic
  | .ok (.inl range) => .ok (.sync s, [.selfRequest range])
  | .ok (.inr (rootParentChain, rootInfo)) =>
    match s.dbStatus with
    | .waiting => s.startDb cfg backend rootParentChain rootInfo
    | .started => .ok (.sync s, [])
    | .done => s.startConsensus cfg backend rootParentChain rootInfo

def requestSync (newRoot : ConsensusBlockHeader T) (newHighQc : QuorumCertificate T)
    (s : SyncState env) : Outcome env :=
  maybeStartConsensus cfg backend
    { s with
      highCertificate := .qc newHighQc
      blockBuffer := s.blockBuffer.reRoot newRoot
      dbStatus := .waiting
      updatingTarget := false }

def blockSync (fullBlocks : List (ConsensusFullBlock env)) (s : SyncState env) : Outcome env :=
  maybeStartConsensus cfg backend
    { s with blockBuffer := fullBlocks.foldl BlockBuffer.handleBlocksync s.blockBuffer }

/-- A proposal that passed validation. It may ask for a new root, once. -/
def handleProposal (author : NodeId) (p : ProposalMessage T) (s : SyncState env) : Outcome env :=
  match s.blockBuffer.handleProposal author p with
  | .error panic => .error (.tree panic)
  | .ok (none, blockBuffer) => .ok (.sync { s with blockBuffer }, [])
  | .ok (some (newRoot, newHighQc), blockBuffer) =>
    if s.updatingTarget then .ok (.sync { s with blockBuffer }, [])
    else
      .ok (.sync { s with blockBuffer, updatingTarget := true },
        [.forwardRequestSync newRoot newHighQc])

end SyncState

/-! ## The system -/

/-- What waits in the loopback queue for the sync phase. -/
inductive LoopbackEvent (env : Env T) where
  | requestSync (newRoot : ConsensusBlockHeader T) (newHighQc : QuorumCertificate T)
  | blockSync (range : BlockRange T) (fullBlocks : List (ConsensusFullBlock env))

def LoopbackEvent.isBlockSync {env : Env T} : LoopbackEvent env → Bool
  | blockSync _ _ => true
  | requestSync _ _ => false

def SyncCommand.forwarded? {env : Env T} : SyncCommand env → Option (LoopbackEvent env)
  | forwardRequestSync root highQc => some (.requestSync root highQc)
  | _ => none

/-- A node and what its executors hold for it. -/
structure System (env : Env T) where
  mode : ConsensusMode env
  built : Bool
  loopback : List (LoopbackEvent env)
  /-- Block ranges asked for. -/
  requests : List (BlockRange T)
  /-- Numbers of headers that statesync was asked for. -/
  targets : List ℕ
  /-- Statesync has given way to execution. -/
  executing : Bool

/-- What a node can start from. -/
structure SyncStart (T : Types) where
  root : T.BlockId
  highCertificate : RoundCertificate T
  lockedEpochValidators : List ValidatorSetDataWithEpoch

/-- What happens next to a node. -/
inductive Input (env : Env T) where
  /-- The node is built: it checks whether it can go live at once. -/
  | build
  /-- A proposal arrives from the network. -/
  | proposal (author : NodeId) (proposal : ProposalMessage T)
  /-- The first event of the loopback queue. -/
  | forwarded
  /-- Statesync reports the execution state of a block. -/
  | doneSync (n : ℕ)
  /-- Block sync completes a request, and puts the blocks into the loopback queue. -/
  | blocks (range : BlockRange T) (fullBlocks : List (ConsensusFullBlock env))

namespace System

variable {env : Env T} (cfg : SyncConfig env) (backend : SyncBackend T)

/-- A node that is about to be built. -/
def new (start : SyncStart T) : System env where
  mode := .sync
    { highCertificate := start.highCertificate
      blockBuffer := .new env cfg.executionDelay start.root cfg.statesyncToLiveThreshold
      dbStatus := .waiting
      updatingTarget := false
      lockedEpochValidators := start.lockedEpochValidators }
  built := false
  loopback := []
  requests := []
  targets := []
  executing := false

/-- The executors take the commands. -/
def exec (sys : System env) (mode : ConsensusMode env) (cmds : List (SyncCommand env)) :
    System env where
  mode
  built := true
  loopback := sys.loopback ++ cmds.filterMap SyncCommand.forwarded?
  requests := sys.requests ++ cmds.filterMap SyncCommand.selfRequest?
  targets := sys.targets ++ cmds.filterMap SyncCommand.requestSync?
  executing := sys.executing || cmds.any SyncCommand.isStartExecution

/-- Run a handler on the state of a node that syncs, or do `live` in a live node. -/
def handle (sys : System env) (handler : SyncState env → SyncState.Outcome env)
    (live : SyncState.Outcome env) : Except SyncPanic (System env × List (SyncCommand env)) :=
  let outcome : SyncState.Outcome env :=
    match sys.mode with
    | .sync s => handler s
    | .live _ => live
  outcome.map fun r => (sys.exec r.1 r.2, r.2)

/-- Handle an event of the loopback queue. -/
def handleForwarded (sys : System env) :
    LoopbackEvent env → Except SyncPanic (System env × List (SyncCommand env))
  | .requestSync newRoot newHighQc =>
    sys.handle (SyncState.requestSync cfg backend newRoot newHighQc) (.error .requestSyncWhileLive)
  | .blockSync _ fullBlocks =>
    sys.handle (SyncState.blockSync cfg backend fullBlocks) (.ok (sys.mode, []))

def next (sys : System env) : Input env → Except SyncPanic (System env × List (SyncCommand env))
  | .build => sys.handle (SyncState.maybeStartConsensus cfg backend) (.error .startWhileLive)
  | .proposal author p => sys.handle (SyncState.handleProposal author p) (.ok (sys.mode, []))
  | .forwarded =>
    match sys.loopback with
    | [] => .ok (sys, [])
    | event :: loopback => handleForwarded cfg backend { sys with loopback } event
  | .doneSync n => sys.handle (SyncState.doneSync cfg backend n) (.error .doneSyncWhileLive)
  | .blocks range fullBlocks =>
    .ok ({ sys with loopback := sys.loopback ++ [.blockSync range fullBlocks] }, [])

end System

/-- The blocks are those of the range: as many as asked for, linked, the last one first
named. -/
def BlockRange.Holds {env : Env T} (range : BlockRange T)
    (fullBlocks : List (ConsensusFullBlock env)) : Prop :=
  fullBlocks.length = range.numBlocks ∧ ParentChain range.lastBlockId fullBlocks.reverse

/-- The order of events, and what is known of their content. A validated proposal finalizes
committed blocks only. -/
def Input.Admissible {env : Env T} (cfg : SyncConfig env)
    (committed : ConsensusFullBlock env → Prop) (sys : System env) : Input env → Prop
  | .build => sys.built = false
  | .proposal _ p => sys.built = true ∧ sys.loopback = [] ∧
      (∃ vals, p.validate env (epochToValidators env cfg.epochManager vals) cfg.epochManager =
        .ok ()) ∧
      ∀ parent header, p.tip.blockHeader.qc.getCommittableId env parent =
        .ok (some (env.getId header)) → IsCommitted committed (env.getId header)
  | .forwarded => sys.built = true ∧ sys.loopback ≠ []
  | .doneSync n => sys.built = true ∧ sys.loopback = [] ∧ n ∈ sys.targets ∧ sys.executing = false
  | .blocks range fullBlocks => sys.built = true ∧ range ∈ sys.requests ∧ range.Holds fullBlocks

end MonadBft
