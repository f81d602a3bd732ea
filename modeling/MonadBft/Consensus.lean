import MonadBft.BlockTree

/-!
# The consensus state machine

`Node` is the state of a live node: the block tree, the votes and no-endorsements it
collects, the vote it has scheduled, its safety rules, its pacemaker, its block sync
requests and the epoch schedule. The handlers of `monad-consensus-state` are programs
over it (`Prog`) that may stop at an assertion (`Panic`) and produce commands.

What a handler takes from outside the state is in `Ctx`: the node's id, the validator
sets, the local time and the verdicts of the block validator and the block policy.
`Event` lists what a node reacts to, `Event.Valid` says that a message passed
`validate`, and `handle` dispatches. Logging and metrics are left out.
-/

namespace MonadBft

variable {T : Types}

/-- The bound on future rounds whose votes are buffered. -/
def FUTURE_VOTE_BOUND : ℕ := 10

/-! ## State -/

variable (T) in
/-- Blocks asked for. Once a block of `cancelRound` or later is committed, the request is
cancelled. -/
structure BlockSyncRequestStatus where
  range : BlockRange T
  cancelRound : ℕ

variable (T) in
/-- The vote timer fired before there was a vote, or a vote waits for the timer. -/
inductive OutgoingVoteStatus where
  | timerFired
  | voteReady (v : Vote T)

/-- The state of a live node. -/
structure Node (env : Env T) where
  pendingBlockTree : BlockTree env
  voteState : VoteState T
  noEndorsementState : NoEndorsementState T
  scheduledVote : Option (OutgoingVoteStatus T)
  safety : Safety T
  pacemaker : Pacemaker T
  blockSyncRequests : List (T.BlockId × BlockSyncRequestStatus T)
  canonicalProposedTip : Option T.BlockId
  epochManager : EpochManager

/-- What handlers take from outside the state. -/
structure Ctx (env : Env T) where
  nodeid : NodeId
  valEpochMap : ValidatorsEpochMapping
  localTimeNs : ℕ
  /-- The verdict of the block policy on a block that extends the root. -/
  checkCoherency : BlockTree.CheckCoherency env
  /-- The verdict of the block validator, given the author's certificate key. -/
  validate : ConsensusBlockHeader T → T.BlockBody → ℕ → Bool
  /-- Whether the execution results a proposal of this sequence number needs are there. -/
  expectedExecutionResults : ℕ → List (ConsensusFullBlock env) → Bool

/-! ## Commands -/

inductive RouterTarget where
  | broadcast (epoch : ℕ)
  | raptorcast (epoch : ℕ)
  | pointToPoint (node : NodeId)
  deriving DecidableEq

/-- What is handed to the ledger. -/
inductive OptimisticPolicyCommit (env : Env T) where
  | proposed (block : ConsensusFullBlock env) (isCanonical : Bool)
  | voted (block : ConsensusFullBlock env)
  | finalized (block : ConsensusFullBlock env)

/-- What a proposal is to be built from. -/
structure CreateProposal (env : Env T) where
  nodeId : NodeId
  epoch : ℕ
  round : ℕ
  seqNum : ℕ
  highQc : QuorumCertificate T
  lastRoundTc : Option (TimeoutCertificate T)
  freshProposalCertificate : Option (FreshProposalCertificate T)
  timestampNs : ℕ
  extendingBlocks : List (ConsensusFullBlock env)

inductive ConsensusCommand (env : Env T) where
  | enterRound (epoch round : ℕ)
  | publish (target : RouterTarget) (message : ProtocolMessage T)
  | publishToFullNodes (epoch round : ℕ) (message : ProtocolMessage T)
  | schedule (round duration : ℕ)
  | scheduleReset
  | createProposal (proposal : CreateProposal env)
  | commitBlocks (commit : OptimisticPolicyCommit env)
  | requestSync (range : BlockRange T)
  | cancelSync (range : BlockRange T)
  | scheduleVote (duration round : ℕ)

variable {env : Env T}

def ConsensusCommand.fromPacemakerCommand (nodeid : NodeId) :
    PacemakerCommand T → List (ConsensusCommand env)
  | .enterRound epoch round highCertificate =>
    [.enterRound epoch round,
      .publishToFullNodes epoch highCertificate.round (.advanceRound ⟨highCertificate⟩)]
  | .prepareTimeout tminfo highExtend safeToVote lastRoundCertificate =>
    [.publish (.broadcast tminfo.epoch)
      (.timeout (.new env nodeid tminfo highExtend safeToVote lastRoundCertificate))]
  | .schedule round duration => [.schedule round duration]
  | .scheduleReset => [.scheduleReset]

/-! ## Block timestamps -/

/-- The timestamp of a block on a block of time `prevBlockTs`. -/
def getValidBlockTimestamp (localTimeNs prevBlockTs : ℕ) : ℕ :=
  if localTimeNs ≤ prevBlockTs then prevBlockTs + 1 else localTimeNs

/-- Whether a block's timestamp is acceptable. The time of a reproposed block is only
required to lie between its parent's and now. -/
def validBlockTimestamp (env : Env T) (localTimeNs prevBlockTs currBlockTs voteDelayNs : ℕ)
    (isReproposal : Bool) : Bool :=
  if isReproposal then decide (prevBlockTs < currBlockTs ∧ currBlockTs < localTimeNs)
  else
    decide (prevBlockTs < currBlockTs ∧ localTimeNs - (env.maxDeltaNs + voteDelayNs) ≤ currBlockTs ∧
      currBlockTs ≤ localTimeNs + (env.maxDeltaNs + voteDelayNs))

namespace Node

/-- A live node starts from a committed block and a certificate. -/
def new (env : Env T) (em : EpochManager) (root : RootInfo T)
    (highCertificate : RoundCertificate T) : Except Panic (Node env) :=
  (Pacemaker.new em highCertificate).map fun pacemaker =>
    { pendingBlockTree := .new root
      voteState := .new pacemaker.getCurrentRound
      noEndorsementState := .new pacemaker.getCurrentRound
      scheduledVote := none
      safety := .new env highCertificate none
      pacemaker
      blockSyncRequests := []
      canonicalProposedTip := none
      epochManager := em }

abbrev getCurrentRound (n : Node env) : ℕ := n.pacemaker.getCurrentRound

abbrev getCurrentEpoch (n : Node env) : ℕ := n.pacemaker.currentEpoch

abbrev M (env : Env T) := Prog (Node env) Panic (ConsensusCommand env)

open Prog

/-! ## Lookups that the code expects to succeed -/

def epochOf (n : Node env) (round : ℕ) : Except Panic ℕ :=
  match n.epochManager.getEpoch round with
  | some epoch => .ok epoch
  | none => .error .epochNotVerified

def validatorsOf (ctx : Ctx env) (epoch : ℕ) : Except Panic (ValidatorSet × ValidatorMapping) :=
  match ctx.valEpochMap epoch with
  | some validators => .ok validators
  | none => .error .validatorSetMissing

def validatorsAt (ctx : Ctx env) (n : Node env) (round : ℕ) :
    Except Panic (ValidatorSet × ValidatorMapping) :=
  match n.epochOf round with
  | .error e => .error e
  | .ok epoch => validatorsOf ctx epoch

def leaderAt (ctx : Ctx env) (n : Node env) (round : ℕ) : Except Panic NodeId :=
  (n.validatorsAt ctx round).map fun v => env.getLeader round v.1

def liftTree {α : Type} (x : Except TreePanic α) : M env α := lift (x.mapError .tree)

/-! ## Setters -/

def setSafety (safety : Safety T) : M env PUnit := modify fun n => { n with safety }

def setBlockTree (pendingBlockTree : BlockTree env) : M env PUnit :=
  modify fun n => { n with pendingBlockTree }

def setScheduledVote (scheduledVote : Option (OutgoingVoteStatus T)) : M env PUnit :=
  modify fun n => { n with scheduledVote }

/-- Take over what a pacemaker operation returned. -/
def setPacemaker (ctx : Ctx env) (r : Pacemaker T × Safety T × List (PacemakerCommand T)) :
    M env PUnit := do
  modify fun n => { n with pacemaker := r.1, safety := r.2.1 }
  emit (r.2.2.flatMap (ConsensusCommand.fromPacemakerCommand ctx.nodeid))

/-! ## Block sync requests -/

def requestSync (range : BlockRange T) (cancelRound : ℕ) : M env PUnit := do
  modify fun n => { n with
    blockSyncRequests := n.blockSyncRequests ++ [(range.lastBlockId, { range, cancelRound })] }
  emit [.requestSync range]

def hasRequest (n : Node env) (id : T.BlockId) : Bool :=
  n.blockSyncRequests.any fun r => decide (r.1 = id)

def requestBlocksIfMissingAncestor : M env PUnit := do
  let n ← get
  let highQc := n.pacemaker.highCertificate.getQc
  let range ← liftTree (n.pendingBlockTree.maybeFillPathToRoot highQc)
  match range with
  | none => pure ⟨⟩
  | some range =>
    if n.hasRequest range.lastBlockId then pure ⟨⟩ else requestSync range highQc.getRound

/-- The tip of the TC the node entered its round with. -/
def tcTip (n : Node env) : Option (ConsensusTip T) :=
  match n.pacemaker.highCertificate with
  | .qc _ => none
  | .tc tc =>
    match tc.highExtend with
    | .qc _ => none
    | .tip tip => some tip

def requestTipIfMissing : M env PUnit := do
  let n ← get
  match n.tcTip with
  | none => pure ⟨⟩
  | some tip =>
    let tipId := env.getId tip.blockHeader
    if (n.pendingBlockTree.getBlock tipId).isSome then pure ⟨⟩
    else if n.hasRequest tipId then pure ⟨⟩
    else requestSync { lastBlockId := tipId, numBlocks := 1 } tip.blockHeader.blockRound

/-- Drop the requests the committed blocks have made obsolete. -/
def cancelObsoleteRequests : M env PUnit := do
  let n ← get
  let obsolete := fun r : T.BlockId × BlockSyncRequestStatus T =>
    decide (r.2.cancelRound ≤ n.pendingBlockTree.root.round)
  modify fun n => { n with blockSyncRequests := n.blockSyncRequests.filter fun r => !obsolete r }
  emit ((n.blockSyncRequests.filter obsolete).map fun r => .cancelSync r.2.range)

/-! ## Committing -/

/-- A committed block is handed on, and may schedule the next epoch. -/
def commitBlock (block : ConsensusFullBlock env) : M env PUnit := do
  let n ← get
  let epochManager ←
    lift (n.epochManager.scheduleEpochStart block.getSeqNum block.getBlockRound)
  modify fun n => { n with epochManager }
  emit [.commitBlocks (.finalized block)]

def commitBlocksTo (id : T.BlockId) : M env PUnit := do
  let n ← get
  let (blocksToCommit, pendingBlockTree) ← liftTree (n.pendingBlockTree.prune id)
  setBlockTree pendingBlockTree
  forEach commitBlock blocksToCommit

/-- Commit by the rule `getCommittableId`, if the block it names is coherent. -/
def tryCommit (qc : QuorumCertificate T) : M env PUnit := do
  let n ← get
  match n.pendingBlockTree.getBlock qc.getBlockId with
  | none => pure ⟨⟩
  | some qcParent => do
    let committable ← liftTree (qc.getCommittableId env qcParent.header)
    match committable with
    | none => pure ⟨⟩
    | some id => if n.pendingBlockTree.isCoherent id then commitBlocksTo id else pure ⟨⟩

/-- Hand on the canonical tip if it changed. -/
def updateProposedHead : M env PUnit := do
  let n ← get
  let tip := n.pendingBlockTree.getCanonicalCoherentTip n.pacemaker.highCertificate.getQc
  if n.canonicalProposedTip = some tip then pure ⟨⟩
  else
    match n.pendingBlockTree.getBlock tip with
    | none => pure ⟨⟩
    | some block => do
      modify fun n => { n with canonicalProposedTip := some tip }
      emit [.commitBlocks (.proposed block true)]

/-- Commit with the highest QC in the tree that commits something. -/
def commitHighest : Option (QuorumCertificate T) → M env PUnit
  | none => pure ⟨⟩
  | some qc => tryCommit qc

def tryUpdateCoherency (ctx : Ctx env) (id : T.BlockId) : M env PUnit := do
  let n ← get
  let (newlyCoherent, pendingBlockTree) ←
    liftTree (n.pendingBlockTree.tryUpdateCoherency ctx.checkCoherency id)
  setBlockTree pendingBlockTree
  emit (newlyCoherent.map fun block => .commitBlocks (.proposed block false))
  updateProposedHead
  let n ← get
  let highCommitQc ← liftTree n.pendingBlockTree.getHighCommittableQc
  commitHighest highCommitQc

/-- A node too far behind must be restarted. -/
def maybeStatesync : M env PUnit := do
  let n ← get
  match n.pendingBlockTree.getSeqNumOfQc n.pacemaker.highCertificate.getQc with
  | none => pure ⟨⟩
  | some highQcSeqNum =>
    if highQcSeqNum < n.pendingBlockTree.root.seqNum + env.liveToStatesyncThreshold then pure ⟨⟩
    else fail .mustStatesync

/-! ## Proposing -/

variable (T) in
/-- What a leader's proposal extends. -/
inductive ProposalPlan where
  /-- The tip of the last round's TC. -/
  | repropose (tip : ConsensusTip T) (lastRoundTc : TimeoutCertificate T)
  /-- A fresh block on a QC. -/
  | fresh (qc : QuorumCertificate T) (freshProposalCertificate : Option (FreshProposalCertificate T))
      (lastRoundTc : Option (TimeoutCertificate T))

def proposalPlan (n : Node env) (round : ℕ) : ProposalPlan T :=
  match n.pacemaker.highCertificate with
  | .qc qc => .fresh qc none none
  | .tc tc =>
    match n.noEndorsementState.getNec round with
    | some nec => .fresh tc.highExtend.getQc (some (.nec nec)) (some tc)
    | none =>
      match tc.highExtend with
      | .tip tip => .repropose tip tc
      | .qc qc =>
        .fresh qc
          (some (.noTip { epoch := tc.epoch, round := tc.round, tipRounds := tc.tipRounds
                          highQc := qc }))
          (some tc)

/-- Ask the validators whether the tip may be skipped. -/
def requestRecovery (round : ℕ) (tc : TimeoutCertificate T) : M env PUnit := do
  let n ← get
  if !n.safety.isSafeToRecoveryRequest round then pure ⟨⟩
  else do
    let safety ← lift (n.safety.recoveryRequest round)
    setSafety safety
    emit [.publish (.broadcast n.getCurrentEpoch)
      (.roundRecovery { round := n.getCurrentRound, epoch := n.getCurrentEpoch, tc })]

/-- Propose the tip of the last TC again, or ask to skip it if it cannot be vouched for. -/
def repropose (ctx : Ctx env) (round : ℕ) (tip : ConsensusTip T) (tc : TimeoutCertificate T) :
    M env PUnit := do
  let tipId := env.getId tip.blockHeader
  tryUpdateCoherency ctx tipId
  let n ← get
  if !n.pendingBlockTree.isCoherent tipId || !decide (tip.blockHeader.timestampNs < ctx.localTimeNs)
  then requestRecovery round tc
  else do
    let safety ← lift (n.safety.propose round)
    setSafety safety
    match n.pendingBlockTree.getBlock tipId with
    | none => fail (.tree .notInTree)
    | some block =>
      emit [.publish (.raptorcast n.getCurrentEpoch)
        (.proposal { proposalRound := n.getCurrentRound, proposalEpoch := n.getCurrentEpoch
                     tip, blockBody := block.body, lastRoundTc := some tc })]

/-- The sequence number and timestamp of a block that extends `path`, or the root. -/
def nextBlock (ctx : Ctx env) (root : RootInfo T) (path : List (ConsensusFullBlock env)) : ℕ × ℕ :=
  match path.getLast? with
  | some block => (block.getSeqNum + 1, getValidBlockTimestamp ctx.localTimeNs block.getTimestamp)
  | none => (root.seqNum + 1, getValidBlockTimestamp ctx.localTimeNs root.timestampNs)

/-- Ask the transaction pool for a block on `qc`. -/
def createProposal (ctx : Ctx env) (epoch round : ℕ) (qc : QuorumCertificate T)
    (freshProposalCertificate : Option (FreshProposalCertificate T))
    (lastRoundTc : Option (TimeoutCertificate T)) : M env PUnit := do
  tryUpdateCoherency ctx qc.getBlockId
  let n ← get
  if !n.pendingBlockTree.isCoherent qc.getBlockId then pure ⟨⟩
  else
    match n.pendingBlockTree.getBlocksOnPathFromRoot qc.getBlockId with
    | none => fail (.tree .noPathToRoot)
    | some path =>
      let (seqNum, timestampNs) := nextBlock ctx n.pendingBlockTree.root path
      if !ctx.expectedExecutionResults seqNum path then pure ⟨⟩
      else do
        let safety ← lift (n.safety.propose round)
        setSafety safety
        emit [.createProposal
          { nodeId := ctx.nodeid, epoch, round, seqNum, highQc := qc, lastRoundTc
            freshProposalCertificate, timestampNs, extendingBlocks := path }]

def propose (ctx : Ctx env) (epoch round : ℕ) : ProposalPlan T → M env PUnit
  | .repropose tip tc => repropose ctx round tip tc
  | .fresh qc fresh lastRoundTc => createProposal ctx epoch round qc fresh lastRoundTc

def tryPropose (ctx : Ctx env) : M env PUnit := do
  let n ← get
  let round := n.getCurrentRound
  let epoch ← lift (n.epochOf round)
  let (validators, _) ← lift (validatorsOf ctx epoch)
  if ctx.nodeid ≠ env.getLeader round validators then pure ⟨⟩
  else do
    requestTipIfMissing
    let n ← get
    if !n.safety.isSafeToPropose round then pure ⟨⟩
    else propose ctx epoch round (n.proposalPlan round)

/-- The message a leader sends once the transaction pool has built a block
(`MempoolEvent::Proposal`). -/
def proposalMessage (c : CreateProposal env) (blockBody : T.BlockBody)
    (executionInputs : T.ExecutionInputs) : ProposalMessage T :=
  let blockHeader : ConsensusBlockHeader T :=
    { blockRound := c.round, epoch := c.epoch, qc := c.highQc, author := c.nodeId
      seqNum := c.seqNum, timestampNs := c.timestampNs, blockBodyId := env.getBodyId blockBody
      executionInputs }
  { proposalRound := c.round
    proposalEpoch := c.epoch
    tip := { blockHeader, signature := env.signHeader c.nodeId blockHeader
             freshCertificate := c.freshProposalCertificate }
    blockBody
    lastRoundTc := c.lastRoundTc }

/-! ## Certificates -/

/-- Enter the round after a certificate, unless the node is there already. -/
def processCertificate (ctx : Ctx env) (cert : RoundCertificate T) : M env PUnit := do
  let n ← get
  let r ← lift (n.pacemaker.processCertificate env n.safety n.epochManager cert)
  setPacemaker ctx r

/-- Hand on the highest coherent block on the path to the QC's block. -/
def commitVoted (qc : QuorumCertificate T) : M env PUnit := do
  let n ← get
  match n.pendingBlockTree.getHighestCoherentBlockOnPathFromRoot qc.getBlockId with
  | none => pure ⟨⟩
  | some block => emit [.commitBlocks (.voted block)]

def processQc (ctx : Ctx env) (qc : QuorumCertificate T) : M env PUnit := do
  let n ← get
  if qc.info.round < n.getCurrentRound then pure ⟨⟩
  else do
    commitVoted qc
    tryCommit qc
    cancelObsoleteRequests
    maybeStatesync
    processCertificate ctx (.qc qc)
    updateProposedHead
    requestBlocksIfMissingAncestor
    modify fun n => { n with
      voteState := n.voteState.startNewRound n.getCurrentRound
      noEndorsementState := n.noEndorsementState.startNewRound n.getCurrentRound }
    tryPropose ctx

def processTc (ctx : Ctx env) (tc : TimeoutCertificate T) : M env PUnit := do
  let n ← get
  if tc.round < n.getCurrentRound then pure ⟨⟩
  else do
    processCertificate ctx (.tc tc)
    tryPropose ctx

/-! ## Voting -/

def sendVoteAndResetTimer (ctx : Ctx env) (vote : Vote T) : M env PUnit := do
  let n ← get
  let message : ProtocolMessage T := .vote { vote, sig := env.sign ctx.nodeid (.vote vote) }
  let nextLeader ← lift (n.leaderAt ctx (vote.round + 1))
  let currentLeader ← lift (n.leaderAt ctx vote.round)
  emit (.publish (.pointToPoint nextLeader) message ::
    (if currentLeader ≠ nextLeader then [.publish (.pointToPoint currentLeader) message] else []) ++
    [.scheduleVote (env.votePace (vote.round + 1)) (vote.round + 1)])
  setScheduledVote none

/-- Send the vote at once if the block does not extend the block of the round before,
otherwise wait for the vote timer. -/
def sendOrSchedule (ctx : Ctx env) (parentBlockRound : ℕ) (v : Vote T) : M env PUnit :=
  if parentBlockRound + 1 ≠ v.round then sendVoteAndResetTimer ctx v
  else setScheduledVote (some (.voteReady v))

def dispatchVote (ctx : Ctx env) (parentBlockRound : ℕ) (v : Vote T) :
    Option (OutgoingVoteStatus T) → M env PUnit
  | some .timerFired => sendVoteAndResetTimer ctx v
  | some (.voteReady r) =>
    if v.round ≤ r.round then fail .voteRescheduled else sendOrSchedule ctx parentBlockRound v
  | none => sendOrSchedule ctx parentBlockRound v

def lastRoundTcTip (env : Env T) (lastRoundTc : Option (TimeoutCertificate T)) : Option T.BlockId :=
  lastRoundTc.bind fun tc =>
    match tc.highExtend with
    | .qc _ => none
    | .tip tip => some (env.getId tip.blockHeader)

def tryVote (ctx : Ctx env) (lastRoundTc : Option (TimeoutCertificate T)) (tip : ConsensusTip T) :
    M env PUnit := do
  let n ← get
  let proposalRound := n.getCurrentRound
  let header := tip.blockHeader
  match n.pendingBlockTree.getTimestampOfQc header.qc,
      n.pendingBlockTree.getBlockRoundOfQc header.qc with
  | some parentTimestamp, some parentBlockRound =>
    if !validBlockTimestamp env ctx.localTimeNs parentTimestamp header.timestampNs
        (env.votePace proposalRound) (decide (proposalRound ≠ header.blockRound)) then pure ⟨⟩
    else if !n.pendingBlockTree.isCoherent (env.getId header) then pure ⟨⟩
    else if !n.safety.isSafeToVote proposalRound (lastRoundTcTip env lastRoundTc) then pure ⟨⟩
    else do
      let safety ← lift (n.safety.vote proposalRound (lastRoundTcTip env lastRoundTc) tip)
      setSafety safety
      dispatchVote ctx parentBlockRound
        { id := env.getId header, round := proposalRound, epoch := n.getCurrentEpoch }
        n.scheduledVote
  | _, _ => pure ⟨⟩

/-! ## Adding blocks -/

/-- Vote for a block that was proposed in the current round. -/
def voteIfCurrent (ctx : Ctx env) (block : ConsensusFullBlock env) :
    Option (ℕ × Option (TimeoutCertificate T) × ConsensusTip T) → M env PUnit
  | none => pure ⟨⟩
  | some (proposalRound, lastRoundTc, tip) => do
    let n ← get
    if proposalRound ≠ n.getCurrentRound then pure ⟨⟩
    else if env.getId tip.blockHeader ≠ block.getId then fail .tipNotTheBlock
    else tryVote ctx lastRoundTc tip

/-- Add a block and commit what it makes committable. -/
def tryAddAndCommitBlocktree (ctx : Ctx env) (block : ConsensusFullBlock env)
    (vote : Option (ℕ × Option (TimeoutCertificate T) × ConsensusTip T)) : M env PUnit := do
  let n ← get
  let pendingBlockTree ← liftTree (n.pendingBlockTree.add block)
  setBlockTree pendingBlockTree
  tryUpdateCoherency ctx block.getId
  voteIfCurrent ctx block vote
  tryPropose ctx
  maybeStatesync
  requestBlocksIfMissingAncestor

def authorKey (ctx : Ctx env) (header : ConsensusBlockHeader T) : Except Panic ℕ :=
  match validatorsOf ctx header.epoch with
  | .error e => .error e
  | .ok (_, mapping) =>
    match Assoc.get? mapping header.author with
    | none => .error .authorNotMapped
    | some key => .ok key

/-- The validated block, taken from the tree if it is there. -/
def validateBlock (ctx : Ctx env) (header : ConsensusBlockHeader T) (body : T.BlockBody)
    (n : Node env) : Except Panic (Option (ConsensusFullBlock env)) :=
  match n.pendingBlockTree.getBlock (env.getId header) with
  | some validated =>
    .ok (if validated.getBodyId ≠ env.getBodyId body then none else some validated)
  | none => do
    let blockRoundLeader ← n.leaderAt ctx header.blockRound
    if header.author ≠ blockRoundLeader then pure none
    else do
      let key ← authorKey ctx header
      pure (if ctx.validate header body key then ConsensusFullBlock.new? env header body else none)

/-! ## Messages -/

def processLastRoundTc (ctx : Ctx env) : Option (TimeoutCertificate T) → M env PUnit
  | none => pure ⟨⟩
  | some tc => processTc ctx tc

/-- Handle a proposal whose certificates have been processed. -/
def acceptProposal (ctx : Ctx env) (p : ProposalMessage T) : M env PUnit := do
  let n ← get
  if !n.safety.isSafeToHandleProposal p.proposalRound then pure ⟨⟩
  else do
    let safety ← lift (n.safety.handleProposal p.proposalRound)
    setSafety safety
    let block ← lift (n.validateBlock ctx p.tip.blockHeader p.blockBody)
    match block with
    | none => pure ⟨⟩
    | some block =>
      tryAddAndCommitBlocktree ctx block (some (p.proposalRound, p.lastRoundTc, p.tip))

def handleProposalMessage (ctx : Ctx env) (author : NodeId) (p : ProposalMessage T) :
    M env PUnit := do
  let n ← get
  if p.proposalRound ≤ n.pendingBlockTree.root.round then pure ⟨⟩
  else do
    let (validators, _) ← lift (n.validatorsAt ctx p.proposalRound)
    processQc ctx p.tip.blockHeader.qc
    processLastRoundTc ctx p.lastRoundTc
    let n ← get
    if n.getCurrentRound < p.proposalRound ∨ author ≠ env.getLeader p.proposalRound validators then
      pure ⟨⟩
    else acceptProposal ctx p

/-- A QC made of collected votes. -/
def announceQc (ctx : Ctx env) (voteRound : ℕ) (validators : ValidatorSet) :
    Option (QuorumCertificate T) → M env PUnit
  | none => pure ⟨⟩
  | some qc => do
    processQc ctx qc
    tryPropose ctx
    let n ← get
    if ctx.nodeid = env.getLeader voteRound validators then
      emit [.publish (.broadcast n.getCurrentEpoch) (.advanceRound ⟨.qc qc⟩)]
    else pure ⟨⟩

def handleVoteMessage (ctx : Ctx env) (author : NodeId) (m : VoteMessage T) : M env PUnit := do
  let n ← get
  if m.vote.round < n.getCurrentRound then pure ⟨⟩
  else if n.getCurrentRound + FUTURE_VOTE_BOUND < m.vote.round then pure ⟨⟩
  else do
    let (validators, mapping) ← lift (n.validatorsAt ctx m.vote.round)
    let (maybeQc, voteState) ← lift (n.voteState.processVote env author m validators mapping)
    modify fun n => { n with voteState }
    announceQc ctx m.vote.round validators maybeQc

def handleTimeoutExpiry (ctx : Ctx env) (timeoutRound : ℕ) : M env PUnit := do
  let n ← get
  if timeoutRound < n.getCurrentRound then pure ⟨⟩
  else do
    let r ← lift (n.pacemaker.processLocalTimeout env n.safety)
    setPacemaker ctx r

def broadcastAdvanceRoundMessage (cert : RoundCertificate T) : M env PUnit := do
  let n ← get
  match n.epochManager.getEpoch cert.round with
  | none => pure ⟨⟩
  | some epoch => emit [.publish (.broadcast epoch) (.advanceRound ⟨cert⟩)]

/-- A timeout may carry a vote for its tip. -/
def handleTimeoutVote (ctx : Ctx env) (author : NodeId) (tminfo : TimeoutInfo) :
    HighExtendVote T → M env PUnit
  | .tip tip (some sig) =>
    handleVoteMessage ctx author
      { vote := { id := env.getId tip.blockHeader, round := tminfo.round, epoch := tminfo.epoch }
        sig }
  | .tip _ none => pure ⟨⟩
  | .qc _ => pure ⟨⟩

/-- The certificate of the round before. A TC of the current round makes the node time out
before it leaves the round, one of a later round is passed on. -/
def handleLastRoundCertificate (ctx : Ctx env) : Option (RoundCertificate T) → M env PUnit
  | none => pure ⟨⟩
  | some (.qc qc) => processQc ctx qc
  | some (.tc tc) => do
    let n ← get
    if tc.round = n.getCurrentRound then do
      handleTimeoutExpiry ctx tc.round
      processTc ctx tc
    else if n.getCurrentRound < tc.round then do
      broadcastAdvanceRoundMessage (.tc tc)
      processTc ctx tc
    else pure ⟨⟩

def processRemoteTimeout (ctx : Ctx env) (validators : ValidatorSet) (mapping : ValidatorMapping)
    (author : NodeId) (m : TimeoutMessage T) : M env PUnit := do
  let n ← get
  let r ← lift (n.pacemaker.processRemoteTimeout env n.safety n.epochManager validators mapping
    author m)
  setPacemaker ctx r

def handleTimeoutMessage (ctx : Ctx env) (author : NodeId) (m : TimeoutMessage T) :
    M env PUnit := do
  let n ← get
  if m.tminfo.round < n.getCurrentRound then pure ⟨⟩
  else do
    let (validators, mapping) ← lift (n.validatorsAt ctx m.tminfo.round)
    processQc ctx m.highExtend.getQc
    handleTimeoutVote ctx author m.tminfo m.highExtend
    handleLastRoundCertificate ctx m.lastRoundCertificate
    processRemoteTimeout ctx validators mapping author m
    tryPropose ctx

/-- Decline to endorse the tip of a TC, unless the tip is coherent and could be voted for. -/
def noEndorse (ctx : Ctx env) (author : NodeId) (epoch round : ℕ) (tip : ConsensusTip T) :
    M env PUnit := do
  let n ← get
  if n.pendingBlockTree.isCoherent (env.getId tip.blockHeader) &&
      decide (tip.blockHeader.timestampNs < ctx.localTimeNs) then pure ⟨⟩
  else if !n.safety.isSafeToNoEndorse round then pure ⟨⟩
  else do
    let safety ← lift (n.safety.noEndorse round (env.getId tip.blockHeader))
    setSafety safety
    let msg : NoEndorsement := { epoch, round, tipQcRound := tip.blockHeader.qc.getRound }
    emit [.publish (.pointToPoint author)
      (.noEndorsement { msg, signature := env.sign ctx.nodeid (.noEndorsement msg) })]

def handleRoundRecoveryMessage (ctx : Ctx env) (author : NodeId) (m : RoundRecoveryMessage T) :
    M env PUnit := do
  let n ← get
  let epoch ← lift (n.epochOf m.round)
  let (validators, _) ← lift (validatorsOf ctx epoch)
  processTc ctx m.tc
  let n ← get
  if m.round ≠ n.getCurrentRound ∨ author ≠ env.getLeader n.getCurrentRound validators then pure ⟨⟩
  else
    match m.tc.highExtend with
    | .qc _ => pure ⟨⟩
    | .tip tip => noEndorse ctx author epoch m.round tip

/-- A certificate made of collected no-endorsements. -/
def announceNec (ctx : Ctx env) : Option (NoEndorsementCertificate T) → M env PUnit
  | none => pure ⟨⟩
  | some _ => tryPropose ctx

def handleNoEndorsementMessage (ctx : Ctx env) (author : NodeId) (m : NoEndorsementMessage T) :
    M env PUnit := do
  let n ← get
  if m.msg.round < n.getCurrentRound then pure ⟨⟩
  else if n.getCurrentRound + FUTURE_VOTE_BOUND < m.msg.round then pure ⟨⟩
  else do
    let (validators, mapping) ← lift (n.validatorsAt ctx m.msg.round)
    let (maybeNec, noEndorsementState) ←
      lift (n.noEndorsementState.processNoEndorsement env author m validators mapping)
    modify fun n => { n with noEndorsementState }
    announceNec ctx maybeNec

/-- A QC that moves the node is passed on to the next leader. -/
def handleAdvanceRoundMessage (ctx : Ctx env) (m : AdvanceRoundMessage T) : M env PUnit :=
  match m.lastRoundCertificate with
  | .tc tc => processTc ctx tc
  | .qc qc => do
    let n ← get
    if qc.info.round < n.getCurrentRound then pure ⟨⟩
    else do
      processQc ctx qc
      let n ← get
      let leader ← lift (n.leaderAt ctx n.getCurrentRound)
      emit [.publish (.pointToPoint leader) (.advanceRound ⟨.qc qc⟩)]

/-! ## Block sync and the vote timer -/

/-- Add the blocks in order, up to the first that fails to validate. -/
def addSyncedBlocks (ctx : Ctx env) : List (ConsensusFullBlock env) → M env PUnit
  | [] => pure ⟨⟩
  | fullBlock :: fullBlocks => do
    let n ← get
    if !n.pendingBlockTree.isValidToInsert fullBlock.header then addSyncedBlocks ctx fullBlocks
    else do
      let block ← lift (n.validateBlock ctx fullBlock.header fullBlock.body)
      match block with
      | none => pure ⟨⟩
      | some block => do
        tryAddAndCommitBlocktree ctx block none
        addSyncedBlocks ctx fullBlocks

def handleBlockSync (ctx : Ctx env) (blockRange : BlockRange T)
    (fullBlocks : List (ConsensusFullBlock env)) : M env PUnit := do
  let n ← get
  if !n.hasRequest blockRange.lastBlockId then pure ⟨⟩
  else do
    addSyncedBlocks ctx fullBlocks
    modify fun n => { n with
      blockSyncRequests := n.blockSyncRequests.filter fun r =>
        decide (r.1 ≠ blockRange.lastBlockId) }

/-- A vote that waits is sent. Otherwise the next vote will not wait. -/
def handleVoteTimer (ctx : Ctx env) : M env PUnit := do
  let n ← get
  match n.scheduledVote with
  | some (.voteReady v) => sendVoteAndResetTimer ctx v
  | _ => setScheduledVote (some .timerFired)

end Node

/-! ## Events -/

/-- What a live node reacts to. -/
inductive Event (env : Env T) where
  | message (author : NodeId) (message : ProtocolMessage T)
  | timeoutExpiry (round : ℕ)
  | voteTimer (round : ℕ)
  | blockSync (blockRange : BlockRange T) (fullBlocks : List (ConsensusFullBlock env))

namespace Node

def handleMessage (ctx : Ctx env) (author : NodeId) : ProtocolMessage T → M env PUnit
  | .proposal p => handleProposalMessage ctx author p
  | .vote m => handleVoteMessage ctx author m
  | .timeout m => handleTimeoutMessage ctx author m
  | .roundRecovery m => handleRoundRecoveryMessage ctx author m
  | .noEndorsement m => handleNoEndorsementMessage ctx author m
  | .advanceRound m => handleAdvanceRoundMessage ctx m

def handle (ctx : Ctx env) : Event env → M env PUnit
  | .message author m => handleMessage ctx author m
  | .timeoutExpiry round => handleTimeoutExpiry ctx round
  | .voteTimer _ => handleVoteTimer ctx
  | .blockSync range blocks => handleBlockSync ctx range blocks

end Node

/-- A message reaches its handler only if its author is a validator and it validates. -/
def Event.Valid (ctx : Ctx env) (n : Node env) : Event env → Prop
  | .message author m =>
    m.verifyAuthor n.epochManager ctx.valEpochMap author = .ok () ∧
      m.validate env (epochToValidators env n.epochManager ctx.valEpochMap) n.epochManager = .ok ()
  | _ => True

end MonadBft
