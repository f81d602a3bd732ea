import MonadBft.Eth.TrackedMap

/-!
# The transaction pool

The operations of the pool that a node uses: transactions come in batches and are checked
against the state of the last committed block (`EthTxPool.insertTxs`), a block is committed
(`EthTxPool.updateCommittedBlock`), a round begins (`EthTxPool.enterRound`), and a block is
proposed (`EthTxPool.createProposal`). Each is called with a tracker for its events.

A snapshot lists the transactions of the pool (`EthTxPool.generateSnapshot`).
-/

namespace MonadBft

deriving instance DecidableEq for ChainParams

inductive PoolFailure where
  | arm (arm : PoolArm)
  | chainIdChanged
  | outOfOrderCommit
  | policy (panic : PolicyPanic)

structure EthTxPool (env : PoolEnv) where
  tracked : TrackedTxMap
  lastCommit : Option (EthBlockHeader env.toEthEnv)
  chainId : ℕ
  /-- The chain parameters that validation reads, and the one that it does not. -/
  chainRevision : ChainParams
  votePace : ℕ
  executionRevision : MonadExecutionRevision

/-- The order in which a hash map with the transactions of accounts is iterated. -/
structure GroupOrder where
  order : List (Address × List PoolTx) → List (Address × List PoolTx)
  perm : ∀ groups, (order groups).Perm groups

variable {env : PoolEnv}

/-- The answer of the block policy, unless it panics. -/
def policyAnswer {β : Type} (x : Except PolicyFailure β) :
    Except PoolFailure (Except BlockPolicyError β) :=
  match x with
  | .ok b => .ok (.ok b)
  | .error (.error error) => .ok (.error error)
  | .error (.panic panic) => .error (.policy panic)

namespace EthTxPool

variable (pool : EthTxPool env) (tracker : EthTxPoolEventTracker)

def new (limits : TrackedTxLimitsConfig) (chainId : ℕ) (chainRevision : ChainParams)
    (votePace : ℕ) (executionRevision : MonadExecutionRevision) : EthTxPool env :=
  ⟨.new limits, none, chainId, chainRevision, votePace, executionRevision⟩

def generateSnapshot : List TxHash := pool.tracked.iterTxs.map (PoolTx.hash env)

/-- The operations on the tracked transactions stop where those do. -/
def liftTracked (r : Except PoolArm (TrackedTxMap × EthTxPoolEventTracker)) :
    Except PoolFailure (EthTxPool env × EthTxPoolEventTracker) :=
  match r with
  | .ok (tracked, tracker) => .ok ({ pool with tracked }, tracker)
  | .error arm => .error (.arm arm)

/-! ## Insertion -/

def validTxs (lastCommit : EthBlockHeader env.toEthEnv) (txs : List (Recovered × PoolTxKind)) :
    List PoolTx :=
  txs.filterMap fun tx => (PoolTx.validate lastCommit pool.chainId pool.chainRevision
    pool.executionRevision.executionChainParams tx.1 tx.2).toOption

/-- The others, with the reason. -/
def invalidTxs (lastCommit : EthBlockHeader env.toEthEnv) (txs : List (Recovered × PoolTxKind)) :
    List (Recovered × EthTxPoolDropReason) :=
  txs.filterMap fun tx => match PoolTx.validate lastCommit pool.chainId pool.chainRevision
      pool.executionRevision.executionChainParams tx.1 tx.2 with
    | .ok _ => none
    | .error invalid => some invalid

/-- The account cannot pay for the gas. -/
def isInsufficient (lastCommit : EthBlockHeader env.toEthEnv)
    (accountBalances : AddressMap AccountBalanceState) (tx : PoolTx) : Bool :=
  match accountBalances tx.tx.signer with
  | none => true
  | some account =>
    decide (account.balance < computeTxnMaxGasCost tx.tx.toTxEnvelope lastCommit.baseFee)

def insertGroup (accountNonces : AddressMap ℕ)
    (state : EthTxPool env × EthTxPoolEventTracker) (group : Address × List PoolTx) :
    Except PoolFailure (EthTxPool env × EthTxPoolEventTracker) :=
  match accountNonces group.1 with
  | none => .ok (state.1, state.2.dropAll env (group.2.map PoolTx.tx) (.internal .stateBackendError))
  | some accountNonce =>
    state.1.liftTracked (state.1.tracked.tryInsertTxs env state.2 group.1 group.2 accountNonce)

def insertTxs (blockPolicy : EthBlockPolicy env.toEthEnv) (stateBackend : StateBackend env.toEthEnv)
    (groupOrder : GroupOrder) (txs : List (Recovered × PoolTxKind)) :
    Except PoolFailure (EthTxPool env × EthTxPoolEventTracker) :=
  match pool.lastCommit with
  | none => .ok (pool, tracker.dropAll env (txs.map Prod.fst) .poolNotReady)
  | some lastCommit => do
    let valid := pool.validTxs lastCommit txs
    let tracker := (pool.invalidTxs lastCommit txs).foldl
      (fun tracker invalid => tracker.drop (env.txHash invalid.1.toTxEnvelope) invalid.2) tracker
    let blockSeqNum := blockPolicy.lastCommit + 1
    match ← policyAnswer (blockPolicy.computeAccountBaseBalances blockSeqNum stateBackend none
      (valid.map fun tx => tx.tx.signer)) with
    | .error _ =>
      .ok (pool, tracker.dropAll env (valid.map PoolTx.tx) (.internal .stateBackendError))
    | .ok accountBalances => do
      let insufficient := valid.filter (isInsufficient lastCommit accountBalances)
      let sufficient := valid.filter fun tx => !isInsufficient lastCommit accountBalances tx
      let tracker := tracker.dropAll env (insufficient.map PoolTx.tx) .insufficientBalance
      let groups := groupOrder.order (Assoc.group (fun tx => tx.tx.signer) id sufficient)
      match ← policyAnswer (blockPolicy.getAccountBaseNonces blockSeqNum stateBackend []
        (groups.map Prod.fst)) with
      | .error _ =>
        .ok (pool, tracker.dropAll env ((groups.flatMap Prod.snd).map PoolTx.tx)
          (.internal .stateBackendError))
      | .ok accountNonces => groups.foldlM (insertGroup accountNonces) (pool, tracker)

/-! ## Blocks and rounds -/

def staticValidateAllTxs : Except PoolFailure (EthTxPool env × EthTxPoolEventTracker) :=
  pool.liftTracked (pool.tracked.staticValidateAllTxs env tracker pool.chainId pool.chainRevision
    pool.executionRevision.executionChainParams)

/-- Take over parameters. If they are others than before, all transactions are validated by
them. -/
def withRevisions (chainRevision : ChainParams) (votePace : ℕ)
    (executionRevision : MonadExecutionRevision) :
    Except PoolFailure (EthTxPool env × EthTxPoolEventTracker) :=
  if (chainRevision, votePace) ≠ (pool.chainRevision, pool.votePace) ∨
      pool.executionRevision ≠ executionRevision then
    staticValidateAllTxs { pool with chainRevision, votePace, executionRevision } tracker
  else .ok (pool, tracker)

def evictExpiredTxs (clock : Address → ℕ) :
    Except PoolFailure (EthTxPool env × EthTxPoolEventTracker) :=
  pool.liftTracked (pool.tracked.evictExpiredTxs env tracker clock)

/-- The usages of the accounts that are tracked, by account. Others do not matter. -/
def trackedUsages (nonceUsages : NonceUsageMap) : List (Address × NonceUsage) :=
  ((pool.tracked.txs.map Prod.fst).mergeSort fun a b => decide (a ≤ b)).filterMap fun address =>
    (nonceUsages address).map fun usage => (address, usage)

/-- The timestamp is that of the block's execution inputs, in seconds. -/
def updateCommittedBlock (clock : Address → ℕ) (committedBlock : EthValidatedBlock env.toEthEnv)
    (timestamp : ℕ) : Except PoolFailure (EthTxPool env × EthTxPoolEventTracker) := do
  if (pool.lastCommit.map fun lastCommit => lastCommit.seqNum + 1).any
      fun next => decide (committedBlock.getSeqNum ≠ next) then
    .error .outOfOrderCommit
  else
    let pool := { pool with lastCommit := some committedBlock.header }
    let (pool, tracker) ← pool.withRevisions tracker pool.chainRevision pool.votePace
      (env.getExecutionChainRevision timestamp)
    let (pool, tracker) ← pool.liftTracked (pool.tracked.updateCommittedNonceUsages env tracker
      (pool.trackedUsages committedBlock.nonceUsages))
    pool.evictExpiredTxs tracker clock

def enterRound (round : ℕ) : Except PoolFailure (EthTxPool env × EthTxPoolEventTracker) :=
  if pool.chainId ≠ env.chainId then .error .chainIdChanged
  else
    pool.withRevisions tracker (env.getChainRevision round) (env.getVotePace round)
      pool.executionRevision

/-! ## Proposals -/

structure ProposalRequest (env : PoolEnv) where
  epoch : ℕ
  round : ℕ
  proposedSeqNum : ℕ
  baseFee : ℕ
  limits : ProposalLimits
  timestampNs : ℕ
  nodeId : NodeId
  extendingBlocks : List (EthValidatedBlock env.toEthEnv)

/-- The transactions of the proposal. The pool is only read. -/
def proposalTransactions (request : ProposalRequest env)
    (shuffle : List OrderedTxGroup → List OrderedTxGroup)
    (blockPolicy : EthBlockPolicy env.toEthEnv) (stateBackend : StateBackend env.toEthEnv) :
    Except SequencingFailure (List Recovered) := do
  let systemTransactions ← (blockPolicy.getSystemTransactions request.epoch request.proposedSeqNum
    (env.getEthAddress request.nodeId) request.extendingBlocks stateBackend).mapError .policy
  let systemTxsSize := (systemTransactions.map fun tx => env.length tx.toTxEnvelope).sum
  let proposal ← sequenceUserTransactions shuffle (pool.lastCommit.map EthBlockHeader.seqNum)
    pool.chainRevision pool.tracked.txs request.proposedSeqNum request.baseFee
    { request.limits with
      txLimit := request.limits.txLimit - systemTransactions.length
      proposalByteLimit := request.limits.proposalByteLimit - systemTxsSize }
    request.extendingBlocks blockPolicy stateBackend
  return systemTransactions ++ proposal.txs

/-- The pool, its events and the transactions that are proposed. -/
def createProposal (clock : Address → ℕ) (request : ProposalRequest env)
    (shuffle : List OrderedTxGroup → List OrderedTxGroup)
    (blockPolicy : EthBlockPolicy env.toEthEnv) (stateBackend : StateBackend env.toEthEnv) :
    Except PoolFailure ((EthTxPool env × EthTxPoolEventTracker) ×
      Except SequencingFailure (List Recovered)) := do
  let (pool, tracker) ← pool.evictExpiredTxs tracker clock
  if pool.chainId ≠ env.chainId then .error .chainIdChanged
  else
    let (pool, tracker) ← pool.withRevisions tracker (env.getChainRevision request.round)
      (env.getVotePace request.round)
      (env.getExecutionChainRevision (timestampNsToSecs request.timestampNs))
    .ok ((pool, tracker), pool.proposalTransactions request shuffle blockPolicy stateBackend)

end EthTxPool

end MonadBft
