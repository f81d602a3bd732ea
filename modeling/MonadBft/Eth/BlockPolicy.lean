import MonadBft.Assoc
import MonadBft.Eth.BlockValidator

/-!
# The block policy

A block is coherent with its ancestors (`checkCoherency`) if it continues them, carries the
execution result and the base fee that follow from them, and its transactions have the right
nonces and can be paid. The state of an account is known `executionDelay` blocks back. What
happened to it since is put together from the blocks in between: the latest committed ones,
kept in a buffer (`CommittedBlkBuffer`), and the blocks being extended.

`getAccountBaseNonces` and `computeAccountBaseBalances` give the nonces and the balances
before a block. Every function either ends, returns an error, or stops at an assertion
(`PolicyFailure`).
-/

namespace MonadBft

open Assoc

variable {env : EthEnv}

/-! ## Failures -/

inductive StateBackendError where
  | notAvailableYet
  | neverAvailable
  deriving DecidableEq

inductive BlockPolicyError where
  | blockNotCoherent
  | stateBackendError (error : StateBackendError)
  | timestampError
  | executionResultMismatch
  | baseFeeError
  | blockPolicyBlockValidatorError (error : BlockPolicyBlockValidatorError)
  | systemTransactionError
  deriving DecidableEq

inductive PolicyPanic where
  | outOfOrder
  | bufferEmpty
  | bufferTooShort
  | alreadyCommitted
  | emptyingRangeNotContiguous
  | reserveRangeNotContiguous
  | extendingNotContiguous
  | committedBlockMissing
  | extendingBlockMissing
  | lastCommitMissing
  | parentNotLastCommit
  | accountNoncesMissing
  | baseFee
  | systemTransactionsExtracted
  deriving DecidableEq

inductive PolicyFailure where
  | error (error : BlockPolicyError)
  | panic (panic : PolicyPanic)
  deriving DecidableEq

/-- The computation ends without reaching an assertion. -/
def NoPanic {α : Type} (x : Except PolicyFailure α) : Prop := ∀ p, x ≠ .error (.panic p)

/-! ## Blocks and accounts -/

variable (env) in
/-- A block that has passed validation. -/
structure EthValidatedBlock where
  header : EthBlockHeader env
  systemTxns : List ValidatedTx
  validatedTxns : List ValidatedTx
  nonceUsages : NonceUsageMap
  txnFees : TxnFees

namespace EthValidatedBlock

variable (block : EthValidatedBlock env)

def getSeqNum : ℕ := block.header.seqNum

def getTotalGas : ℕ := (block.validatedTxns.map fun txn => txn.gasLimit).sum

def ofBody (header : EthBlockHeader env) (body : ValidatedBody) : EthValidatedBlock env :=
  ⟨header, body.systemTxns, body.validatedTxns, body.summary.nonceUsages, body.summary.txnFees⟩

/-- The block comes from `validateBlockBody`. -/
def Validated : Prop := ∃ body, validateBlockBody block.header body =
  .ok ⟨block.systemTxns, block.validatedTxns, block.nonceUsages, block.txnFees⟩

theorem validated_ofBody {header : EthBlockHeader env} {body : EthBlockBody env}
    (h : (validateBlockBody header body).toOption.isSome = true) :
    (ofBody header ((validateBlockBody header body).toOption.get h)).Validated :=
  ⟨body, eq_ok_get h⟩

end EthValidatedBlock

/-- A body that starts with the transactions its leader generates. -/
def sampleBody (seqNum nextSystemTxnNonce : ℕ) (txs : List TxEnvelope) : EthBlockBody sampleEnv :=
  ⟨(generateSystemTransactions sampleEnv.toChainConfig seqNum 1 1 3 nextSystemTxnNonce).map
    (fun txn => txn.toTxEnvelope) ++ txs, [], []⟩

/-- A block without transactions. -/
def sampleBlock (seqNum : ℕ) : EthValidatedBlock sampleEnv where
  header := sampleHeader seqNum
  systemTxns := []
  validatedTxns := []
  nonceUsages := fun _ => none
  txnFees := fun _ => none

structure EthAccount where
  nonce : ℕ
  balance : ℕ
  isDelegated : Bool
  deriving DecidableEq

variable (env) in
/-- What execution knows of a block, given its id, its number and whether it is finalized. -/
structure StateBackend where
  getAccountStatuses : env.BlockId → ℕ → Bool → Except StateBackendError (AddressMap EthAccount)
  getExecutionResult : env.BlockId → ℕ → Bool → Except StateBackendError env.FinalizedHeader

/-! ## The buffer of committed blocks -/

variable (env) in
structure CommittedBlock where
  blockId : env.BlockId
  round : ℕ
  epoch : ℕ
  seqNum : ℕ
  nonceUsages : NonceUsageMap
  fees : TxnFees
  baseFee : ℕ
  baseFeeTrend : ℕ
  baseFeeMoment : ℕ
  blockGasUsage : ℕ

/-- What is kept of a block. -/
def EthValidatedBlock.committed (block : EthValidatedBlock env) : CommittedBlock env where
  blockId := block.header.id
  round := block.header.blockRound
  epoch := block.header.epoch
  seqNum := block.header.seqNum
  nonceUsages := block.nonceUsages
  fees := block.txnFees
  baseFee := block.header.baseFee
  baseFeeTrend := block.header.baseFeeTrend
  baseFeeMoment := block.header.baseFeeMoment
  blockGasUsage := block.getTotalGas

variable (env) in
structure CommittedBlkBuffer where
  /-- By sequence number, in order. -/
  blocks : List (ℕ × CommittedBlock env)
  minBufferSize : ℕ

def saturatingDouble (n : ℕ) : ℕ := min (n * 2) U64_MAX

namespace CommittedBlkBuffer

variable (buffer : CommittedBlkBuffer env)

/-- Cut the buffer to its minimal size once it has twice that size. -/
def cut (blockNumber : ℕ) : Except PolicyFailure (List (ℕ × CommittedBlock env)) :=
  let currentSize := buffer.blocks.length
  if currentSize ≥ saturatingDouble buffer.minBufferSize then
    match buffer.blocks.head? with
    | none => .error (.panic .bufferEmpty)
    | some (firstBlockNum, _) =>
      let divider := firstBlockNum + (currentSize - buffer.minBufferSize)
      let blocks := buffer.blocks.filter fun entry => decide (divider ≤ entry.1)
      match blocks.getLast? with
      | none => .error (.panic .bufferEmpty)
      | some (lastBlockNum, _) =>
        if lastBlockNum + 1 ≠ blockNumber then .error (.panic .outOfOrder)
        else if blocks.length < buffer.minBufferSize then .error (.panic .bufferTooShort)
        else .ok blocks
  else .ok buffer.blocks

def updateCommittedBlock (block : EthValidatedBlock env) :
    Except PolicyFailure (CommittedBlkBuffer env) :=
  let blockNumber := block.getSeqNum
  if buffer.blocks.getLast?.any fun last => decide (last.1 + 1 ≠ blockNumber) then
    .error (.panic .outOfOrder)
  else do
    let blocks ← buffer.cut blockNumber
    if (get? blocks blockNumber).isSome then .error (.panic .alreadyCommitted)
    else return { buffer with blocks := Assoc.insert blocks blockNumber block.committed }

/-- In the range where only the latest transaction of an account is of interest. -/
def noteCommitted (address : Address) (state : AccountBalanceState × ℕ)
    (entry : ℕ × CommittedBlock env) : Except PolicyFailure (AccountBalanceState × ℕ) :=
  if entry.1 ≠ state.2 then .error (.panic .emptyingRangeNotContiguous)
  else if (entry.2.fees address).isSome &&
      decide (state.1.blockSeqnumOfLatestTxn < entry.2.seqNum) then
    .ok ({ state.1 with blockSeqnumOfLatestTxn := entry.2.seqNum }, state.2 + 1)
  else .ok (state.1, state.2 + 1)

/-- In the range where an account is charged. -/
def chargeCommitted (executionDelay : ℕ) (address : Address) (state : AccountBalanceState × ℕ)
    (entry : ℕ × CommittedBlock env) : Except PolicyFailure (AccountBalanceState × ℕ) :=
  if entry.1 ≠ state.2 then .error (.panic .reserveRangeNotContiguous)
  else
    match entry.2.fees address with
    | none => .ok (state.1, state.2 + 1)
    | some blockTxnFees =>
      let validator : EthBlockPolicyBlockValidator :=
        ⟨entry.2.seqNum, executionDelay, entry.2.baseFee, env.getChainRevision entry.2.round⟩
      match validator.tryApplyBlockFees state.1 blockTxnFees with
      | .error error => .error (.error (.blockPolicyBlockValidatorError error))
      | .ok account => .ok (account, state.2 + 1)

/-- Bring an account up to the last committed block, and say which block is next. -/
def updateAccountBalance (account : AccountBalanceState) (address : Address)
    (executionDelay emptyingTxnCheckStart reserveBalanceCheckStart : ℕ) :
    Except PolicyFailure (AccountBalanceState × ℕ) := do
  let state ← (buffer.blocks.filter fun entry =>
      decide (emptyingTxnCheckStart ≤ entry.1) && decide (entry.1 < reserveBalanceCheckStart)).foldlM
    (noteCommitted address) (account, emptyingTxnCheckStart)
  (buffer.blocks.filter fun entry => decide (reserveBalanceCheckStart ≤ entry.1)).foldlM
    (chargeCommitted executionDelay address) state

end CommittedBlkBuffer

/-! ## The policy -/

variable (env) in
structure EthBlockPolicy where
  lastCommit : ℕ
  committedCache : CommittedBlkBuffer env
  executionDelay : ℕ

variable (env) in
structure BlockLookupIndex where
  blockId : env.BlockId
  seqNum : ℕ
  round : ℕ
  isFinalized : Bool

namespace EthBlockPolicy

variable (env) in
def new (lastCommit executionDelay : ℕ) : EthBlockPolicy env where
  lastCommit := lastCommit
  committedCache := ⟨[], saturatingDouble executionDelay⟩
  executionDelay := executionDelay

variable (policy : EthBlockPolicy env)

def updateCommittedBlock (block : EthValidatedBlock env) :
    Except PolicyFailure (EthBlockPolicy env) :=
  if block.getSeqNum ≠ policy.lastCommit + 1 then .error (.panic .outOfOrder)
  else do
    let committedCache ← policy.committedCache.updateCommittedBlock block
    return { policy with lastCommit := block.getSeqNum, committedCache := committedCache }

/-- Add blocks without looking at the last commit. -/
def resetBlock (block : EthValidatedBlock env) : Except PolicyFailure (EthBlockPolicy env) := do
  let committedCache ← policy.committedCache.updateCommittedBlock block
  return { policy with lastCommit := block.getSeqNum, committedCache := committedCache }

/-- Start over with the latest committed blocks. -/
def reset (lastDelayCommittedBlocks : List (EthValidatedBlock env)) :
    Except PolicyFailure (EthBlockPolicy env) :=
  lastDelayCommittedBlocks.foldlM resetBlock
    { policy with committedCache := ⟨[], policy.committedCache.minBufferSize⟩ }

def getLastCommitEpoch : Except PolicyFailure ℕ :=
  if policy.lastCommit = GENESIS_SEQ_NUM then .ok 1
  else
    match get? policy.committedCache.blocks policy.lastCommit with
    | none => .error (.panic .lastCommitMissing)
    | some block => .ok block.epoch

/-- Where to look up the state of a block. -/
def getBlockIndex (extendingBlocks : Option (List (EthValidatedBlock env))) (baseSeqNum : ℕ) :
    Except PolicyFailure (BlockLookupIndex env) :=
  if baseSeqNum ≤ policy.lastCommit then
    if baseSeqNum = GENESIS_SEQ_NUM then
      .ok ⟨env.GENESIS_BLOCK_ID, GENESIS_SEQ_NUM, GENESIS_ROUND, true⟩
    else
      match get? policy.committedCache.blocks baseSeqNum with
      | none => .error (.panic .committedBlockMissing)
      | some block => .ok ⟨block.blockId, baseSeqNum, block.round, true⟩
  else
    match extendingBlocks with
    | none => .error (.error (.stateBackendError .notAvailableYet))
    | some blocks =>
      match blocks.find? fun block => decide (block.getSeqNum = baseSeqNum) with
      | none => .error (.panic .extendingBlockMissing)
      | some block => .ok ⟨block.header.id, baseSeqNum, block.header.blockRound, false⟩

def getAccountStatuses (backend : StateBackend env)
    (extendingBlocks : Option (List (EthValidatedBlock env))) (baseSeqNum : ℕ) :
    Except PolicyFailure (AddressMap EthAccount) := do
  let index ← policy.getBlockIndex extendingBlocks baseSeqNum
  (backend.getAccountStatuses index.blockId baseSeqNum index.isFinalized).mapError fun error =>
    .error (.stateBackendError error)

/-- The block whose state is known when a block is checked. -/
def baseSeqNum (consensusBlockSeqNum : ℕ) : ℕ :=
  max consensusBlockSeqNum policy.executionDelay - policy.executionDelay

/-! ## Nonces before a block -/

/-- The usages of the blocks after `baseSeqNum`, for the accounts of interest. -/
def nonceUsagesAfter (baseSeqNum : ℕ) (extendingBlocks : List (EthValidatedBlock env))
    (addresses : List Address) : List NonceUsageMap :=
  let committed := policy.committedCache.blocks.map fun entry => (entry.1, entry.2.nonceUsages)
  let extending := extendingBlocks.map fun block => (block.getSeqNum, block.nonceUsages)
  ((committed ++ extending).filter fun entry => decide (entry.1 > baseSeqNum)).map
    fun entry address => if address ∈ addresses then entry.2 address else none

def getAccountBaseNonces (consensusBlockSeqNum : ℕ) (backend : StateBackend env)
    (extendingBlocks : List (EthValidatedBlock env)) (addresses : List Address) :
    Except PolicyFailure (AddressMap ℕ) := do
  let baseSeqNum := policy.baseSeqNum consensusBlockSeqNum
  let cachedNonceUsages := NonceUsageMap.getNonceUsages
    (policy.nonceUsagesAfter baseSeqNum extendingBlocks addresses)
  let statuses ← policy.getAccountStatuses backend (some extendingBlocks) baseSeqNum
  return fun address =>
    if address ∈ addresses then
      let nonce := (statuses address).elim 0 EthAccount.nonce
      match cachedNonceUsages address with
      | some (.known nonce) => some (nonce + 1)
      | some (.possible possible) =>
        some (NonceUsage.applyPossibleNoncesToAccountNonce nonce possible)
      | none => some nonce
    else none

/-! ## Balances before a block -/

/-- An account in the state of the base block. Its latest transaction is not known. -/
def baseState (baseSeqNum baseMaxReserveBalance : ℕ) : Option EthAccount → AccountBalanceState
  | none => .new baseMaxReserveBalance
  | some status =>
    { balance := status.balance
      remainingReserveBalance := min status.balance baseMaxReserveBalance
      maxReserveBalance := baseMaxReserveBalance
      blockSeqnumOfLatestTxn := baseSeqNum
      isDelegated := status.isDelegated }

/-- The first block whose transactions can make a transaction after the base block not
emptying. -/
def emptyingTxnCheckStart (reserveBalanceCheckStart : ℕ) : ℕ :=
  let start := max (reserveBalanceCheckStart + 1) policy.executionDelay - policy.executionDelay
  if start = GENESIS_SEQ_NUM then start + 1 else start

/-- Bring an account up to the next extending block. -/
def applyExtending (reserveBalanceCheckStart : ℕ) (address : Address)
    (state : AccountBalanceState × ℕ) (block : EthValidatedBlock env) :
    Except PolicyFailure (AccountBalanceState × ℕ) :=
  if state.2 ≠ block.getSeqNum then .error (.panic .extendingNotContiguous)
  else
    match block.txnFees address with
    | none => .ok (state.1, state.2 + 1)
    | some txnFee =>
      if state.2 < reserveBalanceCheckStart then
        if state.1.blockSeqnumOfLatestTxn < state.2 then
          .ok ({ state.1 with blockSeqnumOfLatestTxn := block.getSeqNum }, state.2 + 1)
        else .ok (state.1, state.2 + 1)
      else
        match (block.header.validator policy.executionDelay).tryApplyBlockFees state.1 txnFee with
        | .error error => .error (.error (.blockPolicyBlockValidatorError error))
        | .ok account => .ok (account, state.2 + 1)

def accountBaseBalance (baseSeqNum : ℕ) (extendingBlocks : Option (List (EthValidatedBlock env)))
    (account : AccountBalanceState) (address : Address) :
    Except PolicyFailure AccountBalanceState := do
  let reserveBalanceCheckStart := baseSeqNum + 1
  let emptyingTxnCheckStart := policy.emptyingTxnCheckStart reserveBalanceCheckStart
  let account :=
    if emptyingTxnCheckStart > GENESIS_SEQ_NUM then
      { account with blockSeqnumOfLatestTxn := emptyingTxnCheckStart - 1 }
    else account
  let state ← policy.committedCache.updateAccountBalance account address policy.executionDelay
    emptyingTxnCheckStart reserveBalanceCheckStart
  match extendingBlocks with
  | none => return state.1
  | some blocks => do
    let nextBlocks := blocks.dropWhile fun block => decide (block.getSeqNum < state.2)
    let state ← nextBlocks.foldlM (policy.applyExtending reserveBalanceCheckStart address) state
    return state.1

def computeAccountBaseBalances (consensusBlockSeqNum : ℕ) (backend : StateBackend env)
    (extendingBlocks : Option (List (EthValidatedBlock env))) (addresses : List Address) :
    Except PolicyFailure (AddressMap AccountBalanceState) := do
  let baseSeqNum := policy.baseSeqNum consensusBlockSeqNum
  let index ← policy.getBlockIndex extendingBlocks baseSeqNum
  let baseMaxReserveBalance := (env.getChainRevision index.round).maxReserveBalance
  let statuses ← policy.getAccountStatuses backend extendingBlocks baseSeqNum
  let balances ← addresses.mapM fun address => do
    let balance ← policy.accountBaseBalance baseSeqNum extendingBlocks
      (baseState baseSeqNum baseMaxReserveBalance (statuses address)) address
    return (address, balance)
  return get? balances

/-! ## Base fees and execution results -/

def GENESIS_BASE_FEE : ℕ := 0

def GENESIS_BASE_FEE_TREND : ℕ := 0

def GENESIS_BASE_FEE_MOMENT : ℕ := 0

/-- The round, base fee, trend, moment and gas usage of the parent block. -/
def getParentBaseFeeFields (extendingBlocks : List (EthValidatedBlock env)) :
    Except PolicyFailure (ℕ × ℕ × ℕ × ℕ × ℕ) :=
  match extendingBlocks.getLast? with
  | some parent =>
    .ok (parent.header.blockRound, parent.header.baseFee, parent.header.baseFeeTrend,
      parent.header.baseFeeMoment, parent.getTotalGas)
  | none =>
    if policy.lastCommit = GENESIS_SEQ_NUM then
      .ok (GENESIS_ROUND, GENESIS_BASE_FEE, GENESIS_BASE_FEE_TREND, GENESIS_BASE_FEE_MOMENT, 0)
    else
      match get? policy.committedCache.blocks policy.lastCommit with
      | none => .error (.panic .lastCommitMissing)
      | some parent =>
        .ok (parent.round, parent.baseFee, parent.baseFeeTrend, parent.baseFeeMoment,
          parent.blockGasUsage)

/-- The base fee, trend and moment of the next block. -/
def computeBaseFee (extendingBlocks : List (EthValidatedBlock env)) :
    Except PolicyFailure (ℕ × ℕ × ℕ) := do
  let (round, baseFee, trend, moment, gasUsage) ← policy.getParentBaseFeeFields extendingBlocks
  match env.computeBaseFee (env.getChainRevision round).proposalGasLimit gasUsage baseFee trend
      moment with
  | none => .error (.panic .baseFee)
  | some fees => return fees

def getExpectedExecutionResults (blockSeqNum : ℕ) (extendingBlocks : List (EthValidatedBlock env))
    (backend : StateBackend env) : Except PolicyFailure (List env.FinalizedHeader) :=
  if blockSeqNum < policy.executionDelay then .ok []
  else do
    let index ← policy.getBlockIndex (some extendingBlocks) (blockSeqNum - policy.executionDelay)
    let result ← (backend.getExecutionResult index.blockId index.seqNum index.isFinalized).mapError
      fun error => .error (.stateBackendError error)
    return [result]

/-! ## Coherency -/

/-- A transaction has its account's nonce. -/
def nonceCheckAndUpdate (accountNonces : AddressMap ℕ) (txn : Recovered) :
    Except PolicyFailure (AddressMap ℕ) :=
  match accountNonces txn.signer with
  | none => .error (.panic .accountNoncesMissing)
  | some expectedNonce =>
    if txn.nonce ≠ expectedNonce then .error (.error .blockNotCoherent)
    else .ok (Function.update accountNonces txn.signer (some (expectedNonce + 1)))

/-- System transactions have the nonces of their account. -/
def systemTransactionNonceCheck (systemTxns : List ValidatedTx) (accountNonces : AddressMap ℕ) :
    Except PolicyFailure (AddressMap ℕ) :=
  systemTxns.foldlM (fun accountNonces txn => nonceCheckAndUpdate accountNonces txn.toRecovered)
    accountNonces

/-- An authorization for this chain uses the nonce of its authority, if it names it. -/
def authorizationNonceUpdate (chainId : ℕ) (accountNonces : AddressMap ℕ)
    (auth : RecoveredAuthorization) : Except PolicyFailure (AddressMap ℕ) :=
  match auth.authority with
  | none => .ok accountNonces
  | some authority =>
    if !BodySummary.isForChain chainId auth then .ok accountNonces
    else
      match accountNonces authority with
      | none => .error (.panic .accountNoncesMissing)
      | some expectedNonce =>
        if expectedNonce ≠ auth.nonce then .ok accountNonces
        else .ok (Function.update accountNonces authority (some (expectedNonce + 1)))

def eip7702ValidNonceUpdate (chainId : ℕ) (authList : List RecoveredAuthorization)
    (accountNonces : AddressMap ℕ) : Except PolicyFailure (AddressMap ℕ) :=
  authList.foldlM (authorizationNonceUpdate chainId) accountNonces

/-- The accounts whose nonces and balances a block needs. -/
def extractSigners (validatedTxns systemTxns : List ValidatedTx) : List Address :=
  validatedTxns.map (fun txn => txn.signer) ++ validatedTxns.flatMap ValidatedTx.authorities ++
    systemTxns.map fun txn => txn.signer

/-- The epoch of the block before the next one. -/
def parentBlockEpoch (seqNum : ℕ) (extendingBlocks : List (EthValidatedBlock env)) :
    Except PolicyFailure ℕ :=
  match extendingBlocks.getLast? with
  | some parent => .ok parent.header.epoch
  | none =>
    if seqNum ≠ policy.lastCommit + 1 then .error (.panic .parentNotLastCommit)
    else policy.getLastCommitEpoch

def validateSystemTransactionsInput (block : EthValidatedBlock env)
    (extendingBlocks : List (EthValidatedBlock env)) : Except PolicyFailure Unit := do
  let parentBlockEpoch ← policy.parentBlockEpoch block.getSeqNum extendingBlocks
  match MonadBft.validateSystemTransactionsInput block.header parentBlockEpoch block.systemTxns with
  | .ok () => .ok ()
  | .error (.error _) => .error (.error .systemTransactionError)
  | .error .shouldNotBeExtracted => .error (.panic .systemTransactionsExtracted)

/-- The authorizations of a transaction are processed after its nonce is used. -/
def replayTransaction (chainId : ℕ) (accountNonces : AddressMap ℕ) (txn : ValidatedTx) :
    Except PolicyFailure (AddressMap ℕ) := do
  let accountNonces ← nonceCheckAndUpdate accountNonces txn.toRecovered
  if txn.isEip7702 then eip7702ValidNonceUpdate chainId txn.authorizations7702 accountNonces
  else return accountNonces

/-- Check a transaction against the nonces and balances before it. -/
def checkTransaction (validator : EthBlockPolicyBlockValidator) (chainId : ℕ)
    (state : AddressMap ℕ × AddressMap AccountBalanceState) (txn : ValidatedTx) :
    Except PolicyFailure (AddressMap ℕ × AddressMap AccountBalanceState) := do
  let accountNonces ← nonceCheckAndUpdate state.1 txn.toRecovered
  let accountBalances ← (validator.tryAddTransaction state.2 txn).mapError fun error =>
    .error (.blockPolicyBlockValidatorError error)
  let accountNonces ←
    if txn.isEip7702 then eip7702ValidNonceUpdate chainId txn.authorizations7702 accountNonces
    else .ok accountNonces
  return (accountNonces, accountBalances)

/-- A block follows from the blocks it extends. -/
def checkCoherency (block : EthValidatedBlock env)
    (extendingBlocks : List (EthValidatedBlock env)) (rootSeqNum : ℕ)
    (backend : StateBackend env) : Except PolicyFailure Unit :=
  let (extendingSeqNum, extendingTimestamp) :=
    match extendingBlocks.getLast? with
    | some parent => (parent.getSeqNum, parent.header.timestampNs)
    | none => (rootSeqNum, 0)
  if block.getSeqNum ≠ extendingSeqNum + 1 then .error (.error .blockNotCoherent)
  else if block.header.timestampNs ≤ extendingTimestamp then .error (.error .timestampError)
  else do
    let expectedExecutionResults ←
      policy.getExpectedExecutionResults block.getSeqNum extendingBlocks backend
    if block.header.delayedExecutionResults ≠ expectedExecutionResults then
      .error (.error .executionResultMismatch)
    else
      let (baseFee, baseFeeTrend, baseFeeMoment) ← policy.computeBaseFee extendingBlocks
      if baseFee ≠ block.header.baseFee ∨ baseFeeTrend ≠ block.header.baseFeeTrend ∨
          baseFeeMoment ≠ block.header.baseFeeMoment then
        .error (.error .baseFeeError)
      else
        let txSigners := extractSigners block.validatedTxns block.systemTxns
        let accountNonces ←
          policy.getAccountBaseNonces block.getSeqNum backend extendingBlocks txSigners
        let accountBalances ← policy.computeAccountBaseBalances block.getSeqNum backend
          (some extendingBlocks) txSigners
        policy.validateSystemTransactionsInput block extendingBlocks
        let accountNonces ← systemTransactionNonceCheck block.systemTxns accountNonces
        let _ ← block.validatedTxns.foldlM
          (checkTransaction (block.header.validator policy.executionDelay) env.chainId)
          (accountNonces, accountBalances)
        return ()

/-- A transaction passes if its nonces and its balance do. -/
theorem checkTransaction_eq_ok {validator : EthBlockPolicyBlockValidator} {chainId : ℕ}
    {state state' : AddressMap ℕ × AddressMap AccountBalanceState} {txn : ValidatedTx} :
    checkTransaction validator chainId state txn = .ok state' ↔
      replayTransaction chainId state.1 txn = .ok state'.1 ∧
        validator.tryAddTransaction state.2 txn = .ok state'.2 := by
  unfold checkTransaction replayTransaction
  cases nonceCheckAndUpdate state.1 txn.toRecovered with
  | error e => simp [bind, Except.bind]
  | ok nonces =>
    cases hadd : validator.tryAddTransaction state.2 txn with
    | error e => simp [bind, Except.bind, Except.mapError]
    | ok balances =>
      dsimp only [Except.mapError, bind, Except.bind]
      split
      · cases eip7702ValidNonceUpdate chainId txn.authorizations7702 nonces with
        | error e => simp
        | ok nonces' => simp [pure, Except.pure, Prod.ext_iff]
      · simp [pure, Except.pure, Prod.ext_iff]

/-- How a block passed the check. -/
structure Coherent (policy : EthBlockPolicy env) (block : EthValidatedBlock env)
    (extendingBlocks : List (EthValidatedBlock env)) (backend : StateBackend env)
    (nonces nonces₁ : AddressMap ℕ) (balances : AddressMap AccountBalanceState)
    (final : AddressMap ℕ × AddressMap AccountBalanceState) : Prop where
  baseNonces : policy.getAccountBaseNonces block.getSeqNum backend extendingBlocks
    (extractSigners block.validatedTxns block.systemTxns) = .ok nonces
  baseBalances : policy.computeAccountBaseBalances block.getSeqNum backend (some extendingBlocks)
    (extractSigners block.validatedTxns block.systemTxns) = .ok balances
  systemInput : policy.validateSystemTransactionsInput block extendingBlocks = .ok ()
  systemNonces : systemTransactionNonceCheck block.systemTxns nonces = .ok nonces₁
  transactions : block.validatedTxns.foldlM
    (checkTransaction (block.header.validator policy.executionDelay) env.chainId)
    (nonces₁, balances) = .ok final

theorem checkCoherency_eq_ok {policy : EthBlockPolicy env} {block : EthValidatedBlock env}
    {extendingBlocks : List (EthValidatedBlock env)} {rootSeqNum : ℕ} {backend : StateBackend env}
    (h : policy.checkCoherency block extendingBlocks rootSeqNum backend = .ok ()) :
    ∃ nonces nonces₁ balances final,
      Coherent policy block extendingBlocks backend nonces nonces₁ balances final := by
  unfold checkCoherency at h
  generalize (match extendingBlocks.getLast? with
    | some parent => (parent.getSeqNum, parent.header.timestampNs)
    | none => (rootSeqNum, 0)) = parent at h
  dsimp only at h
  split at h
  · cases h
  split at h
  · cases h
  obtain ⟨_, -, h⟩ := bind_eq_ok.mp h
  split at h
  · cases h
  obtain ⟨⟨_, _, _⟩, -, h⟩ := bind_eq_ok.mp h
  split at h
  · cases h
  obtain ⟨nonces, hnonces, h⟩ := bind_eq_ok.mp h
  obtain ⟨balances, hbalances, h⟩ := bind_eq_ok.mp h
  obtain ⟨_, hinput, h⟩ := bind_eq_ok.mp h
  obtain ⟨nonces₁, hsystem, h⟩ := bind_eq_ok.mp h
  obtain ⟨final, htransactions, -⟩ := bind_eq_ok.mp h
  exact ⟨nonces, nonces₁, balances, final, hnonces, hbalances, hinput, hsystem, htransactions⟩

end EthBlockPolicy

end MonadBft
