import MonadBft.Eth.Transaction
import MonadBft.Prog
import MonadBft.Validator

/-!
# System transactions

Every block starts with calls to the staking contract that all nodes derive from the
header: rewards, snapshots and epoch changes (`generateSystemCalls`). The leader signs them
with a key that everybody knows (`generateSystemTransactions`), so a block is checked
against the calls it should start with. `extractSystemTransactions` splits a body at the
first transaction that is not from the system sender, and `validateSystemTransactionsInput`
compares the extracted transactions with the expected calls.
-/

namespace MonadBft

def SYSTEM_SENDER_ETH_ADDRESS : Address := 0x6f49a8F621353f12378d0046E7d7e4b9B249DC9e

/-- A number as a 32-byte word, the most significant byte first. -/
def abiEncode (n : ℕ) : Bytes := (List.range 32).map fun i => UInt8.ofNat (n / 256 ^ (31 - i))

/-! ## Calls to the staking contract -/

inductive StakingContractCall where
  | reward (blockAuthorAddress : Address) (blockReward : ℕ)
  | snapshot
  | epochChange (newEpoch : ℕ)
  deriving DecidableEq

namespace StakingContractCall

def STAKING_CONTRACT_ADDRESS : Address := 0x1000

def REWARD_FUNCTION_SELECTOR : Bytes := [0x79, 0x1b, 0xdc, 0xf3]

def SNAPSHOT_FUNCTION_SELECTOR : Bytes := [0x15, 0x7e, 0xeb, 0x21]

def EPOCH_CHANGE_FUNCTION_SELECTOR : Bytes := [0x1d, 0x4e, 0x9f, 0x02]

def MON : ℕ := 1000000000000000000

/-- Only the system sender may call these functions. -/
def isRestrictedStakingContractCall (txn : TxEnvelope) : Bool :=
  decide (txn.toAddress = some STAKING_CONTRACT_ADDRESS) &&
    (REWARD_FUNCTION_SELECTOR.isPrefixOf txn.input ||
      SNAPSHOT_FUNCTION_SELECTOR.isPrefixOf txn.input ||
      EPOCH_CHANGE_FUNCTION_SELECTOR.isPrefixOf txn.input)

def getTransactionValue : StakingContractCall → ℕ
  | reward _ blockReward => blockReward
  | snapshot => 0
  | epochChange _ => 0

def getTransactionInput : StakingContractCall → Bytes
  | reward blockAuthorAddress _ => REWARD_FUNCTION_SELECTOR ++ abiEncode blockAuthorAddress
  | snapshot => SNAPSHOT_FUNCTION_SELECTOR
  | epochChange newEpoch => EPOCH_CHANGE_FUNCTION_SELECTOR ++ abiEncode newEpoch

/-- The transaction of a call, signed with the system sender's key. -/
def intoSignedTransaction (call : StakingContractCall) (chainId nonce : ℕ) : Recovered where
  txType := .legacy
  chainId := some chainId
  nonce := nonce
  gasLimit := 0
  maxFeePerGas := 0
  priorityFee := 0
  kind := .call STAKING_CONTRACT_ADDRESS
  value := call.getTransactionValue
  input := call.getTransactionInput
  accessList := []
  authorizations := []
  signature := ⟨some SYSTEM_SENDER_ETH_ADDRESS, true⟩
  signer := SYSTEM_SENDER_ETH_ADDRESS

end StakingContractCall

open StakingContractCall

/-! ## The expected calls -/

/-- The calls a block starts with. Staking that activates in epoch `n` needs snapshots from
the boundary block of epoch `n - 1` on, epoch changes from epoch `n - 1` on, and rewards from
epoch `n` on. -/
def generateSystemCalls (config : ChainConfig) (proposedSeqNum proposedEpoch parentBlockEpoch : ℕ)
    (blockAuthorAddress : Address) : List StakingContractCall :=
  let epochLength := config.getEpochLength
  let stakingActivation := config.getStakingActivation
  let generateSnapshotTxn := isBoundaryBlock proposedSeqNum epochLength &&
    decide (toEpoch proposedSeqNum epochLength + 1 ≥ stakingActivation)
  let isFirstEpochBlock := decide (parentBlockEpoch ≠ proposedEpoch) &&
    decide (proposedEpoch ≥ stakingActivation - 1)
  -- Staking from epoch 2 on has the change to epoch 1 in the first block.
  let isGenesisBlock := decide (proposedSeqNum = GENESIS_SEQ_NUM + 1) &&
    decide (stakingActivation = 2)
  let generateRewardTxn := decide (proposedEpoch ≥ stakingActivation)
  (if generateSnapshotTxn then [.snapshot] else []) ++
    (if isFirstEpochBlock || isGenesisBlock then [.epochChange proposedEpoch] else []) ++
    (if generateRewardTxn then
      [.reward blockAuthorAddress (MON * config.getBlockRewardMon proposedEpoch)] else [])

/-- Sign calls with consecutive nonces. -/
def signSystemCalls (chainId : ℕ) : ℕ → List StakingContractCall → List Recovered
  | _, [] => []
  | nonce, call :: calls =>
    call.intoSignedTransaction chainId nonce :: signSystemCalls chainId (nonce + 1) calls

/-- The transactions with which a leader starts its block. -/
def generateSystemTransactions (config : ChainConfig)
    (proposedSeqNum proposedEpoch parentBlockEpoch : ℕ) (blockAuthor : Address)
    (nextSystemTxnNonce : ℕ) : List Recovered :=
  signSystemCalls config.chainId nextSystemTxnNonce
    (generateSystemCalls config proposedSeqNum proposedEpoch parentBlockEpoch blockAuthor)

/-! ## Validation -/

inductive SystemTransactionError where
  | unexpectedSenderAddress
  | invalidTxType
  | invalidChainId
  | invalidTxSignature
  | nonZeroGasPrice
  | nonZeroGasLimit
  | invalidTxKind
  | unexpectedDestAddress (expected : Address) (actual : Option Address)
  | unexpectedInput (expectedInput actualInput : Bytes)
  | unexpectedValue (expectedValue actualValue : ℕ)
  deriving DecidableEq

inductive SystemTransactionValidationError where
  | missingSystemTransaction
  | unexpectedSystemTransaction
  | systemTransactionError (error : SystemTransactionError)
  deriving DecidableEq

/-- Why the comparison with the expected calls stops. -/
inductive SystemInputFailure where
  | error (error : SystemTransactionValidationError)
  /-- Transactions were extracted from a block that has no system transactions. -/
  | shouldNotBeExtracted
  deriving DecidableEq

def isSystemSender (address : Address) : Bool := decide (address = SYSTEM_SENDER_ETH_ADDRESS)

def staticValidateSystemTransaction (config : ChainConfig) (txn : Recovered) :
    Except SystemTransactionError Unit :=
  if !isSystemSender txn.signer then .error .unexpectedSenderAddress
  else if !txn.isLegacy then .error .invalidTxType
  else if txn.chainId ≠ some config.chainId then .error .invalidChainId
  else if !txn.signature.lowS then .error .invalidTxSignature
  else if txn.gasPrice ≠ some 0 then .error .nonZeroGasPrice
  else if txn.gasLimit ≠ 0 then .error .nonZeroGasLimit
  else if txn.isCreate then .error .invalidTxKind
  else .ok ()

/-- Take the transactions of the system sender from the front. -/
def takeSystemTransactions (config : ChainConfig) :
    List Recovered → Except SystemTransactionValidationError (List ValidatedTx × List Recovered)
  | [] => .ok ([], [])
  | txn :: txns =>
    if !isSystemSender txn.signer then .ok ([], txn :: txns)
    else
      match staticValidateSystemTransaction config txn with
      | .error error => .error (.systemTransactionError error)
      | .ok () => do
        let (sysTxns, userTxns) ← takeSystemTransactions config txns
        return (⟨txn, []⟩ :: sysTxns, userTxns)

/-- A transaction that may not come after the system transactions. -/
def isForbidden (txn : Recovered) : Bool :=
  isSystemSender txn.signer || isRestrictedStakingContractCall txn.toTxEnvelope

/-- Split the transactions of a block into system transactions and those of users. -/
def extractSystemTransactions {env : EthEnv} (header : EthBlockHeader env)
    (recoveredTxns : List Recovered) :
    Except SystemTransactionValidationError (List ValidatedTx × List Recovered) :=
  if !header.executionChainParams.validateSystemTxs then .ok ([], recoveredTxns)
  else do
    let (sysTxns, userTxns) ← takeSystemTransactions env.toChainConfig recoveredTxns
    if userTxns.any isForbidden then .error .unexpectedSystemTransaction
    else return (sysTxns, userTxns)

/-- Compare a transaction with the call it should be. -/
def StakingContractCall.validateSystemTransactionInput (call : StakingContractCall)
    (txn : ValidatedTx) : Except SystemTransactionError Unit :=
  if txn.toAddress ≠ some STAKING_CONTRACT_ADDRESS then
    .error (.unexpectedDestAddress STAKING_CONTRACT_ADDRESS txn.toAddress)
  else if txn.input ≠ call.getTransactionInput then
    .error (.unexpectedInput call.getTransactionInput txn.input)
  else if txn.value ≠ call.getTransactionValue then
    .error (.unexpectedValue call.getTransactionValue txn.value)
  else .ok ()

/-- Compare transactions with the calls they should be, in order. -/
def validateCalls : List StakingContractCall → List ValidatedTx → Except SystemTransactionError Unit
  | call :: calls, txn :: txns => do
    call.validateSystemTransactionInput txn
    validateCalls calls txns
  | _, _ => .ok ()

/-- The extracted transactions are the expected calls. -/
def validateSystemTransactionsInput {env : EthEnv} (header : EthBlockHeader env)
    (parentBlockEpoch : ℕ) (sysTxns : List ValidatedTx) : Except SystemInputFailure Unit :=
  if !header.executionChainParams.validateSystemTxs then
    if sysTxns.isEmpty then .ok () else .error .shouldNotBeExtracted
  else
    let expectedSysCalls := generateSystemCalls env.toChainConfig header.seqNum header.epoch
      parentBlockEpoch (env.getEthAddress header.author)
    if expectedSysCalls.length ≠ sysTxns.length then
      .error (.error .unexpectedSystemTransaction)
    else
      match validateCalls expectedSysCalls sysTxns with
      | .ok () => .ok ()
      | .error error => .error (.error (.systemTransactionError error))

end MonadBft
