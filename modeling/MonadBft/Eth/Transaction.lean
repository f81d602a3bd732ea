import Mathlib.Logic.Function.Basic
import MonadBft.Bytes
import MonadBft.Types

/-!
# Transactions, chain parameters and block bodies

What consensus reads of an Ethereum transaction (`TxEnvelope`), of its signer (`Recovered`)
and of the EIP-7702 authorizations it carries (`ValidatedTx`), the parameters of the chain
by round and by time (`ChainConfig`), and the header and body of a block.

A signature is what can be read off it: the account it recovers to, if any, and whether
its `s` is in the lower half of the curve. Balances and fees are 256-bit words: sums that
may not fit saturate (`saturatingAdd`). Nonces, gas and sequence numbers are natural
numbers.
-/

namespace MonadBft

/-- The 20 bytes of an account's address, as a number. -/
abbrev Address := ℕ

abbrev AddressMap (β : Type) := Address → Option β

def U64_MAX : ℕ := 2 ^ 64 - 1

def U256_MAX : ℕ := 2 ^ 256 - 1

/-- Addition of 256-bit words that stops at the largest. -/
def saturatingAdd (a b : ℕ) : ℕ := min (a + b) U256_MAX

theorem saturatingAdd_assoc (a b c : ℕ) :
    saturatingAdd (saturatingAdd a b) c = saturatingAdd a (b + c) := by
  unfold saturatingAdd
  omega

/-- A word that is not the largest is not below a sum exactly if the sum is not. -/
theorem saturatingAdd_le {a b x : ℕ} (hx : x < U256_MAX) : saturatingAdd a b ≤ x ↔ a + b ≤ x := by
  unfold saturatingAdd
  omega

/-! ## Transactions -/

inductive TxType where
  | legacy
  | eip2930
  | eip1559
  | eip4844
  | eip7702
  deriving DecidableEq

/-- What can be read off a signature. -/
structure TxSignature where
  /-- The account the signature recovers to. -/
  recovered : Option Address
  /-- Whether `s` is in the lower half of the curve. -/
  lowS : Bool
  deriving DecidableEq

/-- An account's consent to run the code at `address`. -/
structure Authorization where
  /-- The chain it is for, or 0 for every chain. -/
  chainId : ℕ
  address : Address
  nonce : ℕ
  deriving DecidableEq

structure SignedAuthorization extends Authorization where
  /-- The account the signature recovers to. -/
  recoverAuthority : Option Address
  deriving DecidableEq

structure RecoveredAuthorization extends Authorization where
  authority : Option Address
  deriving DecidableEq

/-- What a transaction does: create a contract, or call an account. -/
inductive TxKind where
  | create
  | call (address : Address)
  deriving DecidableEq

/-- A signed transaction. -/
structure TxEnvelope where
  txType : TxType
  /-- Legacy transactions may leave it out. -/
  chainId : Option ℕ
  nonce : ℕ
  gasLimit : ℕ
  /-- The gas price of legacy and EIP-2930 transactions. -/
  maxFeePerGas : ℕ
  /-- Not read for legacy and EIP-2930 transactions. -/
  priorityFee : ℕ
  kind : TxKind
  value : ℕ
  input : Bytes
  /-- How many storage keys each entry has. -/
  accessList : List ℕ
  /-- Not read unless the transaction is of type EIP-7702. -/
  authorizations : List SignedAuthorization
  signature : TxSignature
  deriving DecidableEq

namespace TxEnvelope

variable (tx : TxEnvelope)

def isLegacy : Bool := decide (tx.txType = .legacy)

def isEip2930 : Bool := decide (tx.txType = .eip2930)

def isEip4844 : Bool := decide (tx.txType = .eip4844)

def isEip7702 : Bool := decide (tx.txType = .eip7702)

def isCreate : Bool := decide (tx.kind = .create)

def toAddress : Option Address :=
  match tx.kind with
  | .create => none
  | .call address => some address

/-- Transactions from before EIP-1559 have a gas price, and no priority fee. -/
def gasPrice : Option ℕ := if tx.isLegacy || tx.isEip2930 then some tx.maxFeePerGas else none

def maxPriorityFeePerGas : Option ℕ :=
  if tx.isLegacy || tx.isEip2930 then none else some tx.priorityFee

def authorizationList : Option (List SignedAuthorization) :=
  if tx.isEip7702 then some tx.authorizations else none

/-- What a unit of gas pays above the base fee, if the transaction can pay the base fee. -/
def effectiveTipPerGas (baseFee : ℕ) : Option ℕ :=
  if tx.maxFeePerGas < baseFee then none
  else
    match tx.maxPriorityFeePerGas with
    | none => some (tx.maxFeePerGas - baseFee)
    | some priorityFee => some (min (tx.maxFeePerGas - baseFee) priorityFee)

end TxEnvelope

/-- A transaction with its signer. -/
structure Recovered extends TxEnvelope where
  signer : Address
  deriving DecidableEq

/-- A transaction with its signer and the authorizations whose authority is known. -/
structure ValidatedTx extends Recovered where
  authorizations7702 : List RecoveredAuthorization
  deriving DecidableEq

/-- The authorities of a transaction's authorizations. -/
def ValidatedTx.authorities (txn : ValidatedTx) : List Address :=
  txn.authorizations7702.filterMap RecoveredAuthorization.authority

/-- Whether an account has signed one of a transaction's authorizations. -/
def ValidatedTx.authorizedBy (txn : ValidatedTx) (address : Address) : Bool :=
  txn.authorizations7702.any fun auth => decide (auth.authority = some address)

/-- The most the gas of a transaction can cost. Up to 64 bits times up to 128 bits always fit
in a word. -/
def computeTxnMaxGasCost (txn : TxEnvelope) (baseFee : ℕ) : ℕ :=
  if txn.isLegacy || txn.isEip2930 then txn.gasLimit * txn.maxFeePerGas
  else
    txn.gasLimit *
      min txn.maxFeePerGas (saturatingAdd baseFee (txn.maxPriorityFeePerGas.getD 0))

def computeTxnMaxValue (txn : TxEnvelope) (baseFee : ℕ) : ℕ :=
  saturatingAdd txn.value (computeTxnMaxGasCost txn baseFee)

/-! ## Chain parameters -/

structure ChainParams where
  txLimit : ℕ
  proposalGasLimit : ℕ
  proposalByteLimit : ℕ
  maxReserveBalance : ℕ
  maxReserveBalance_lt : maxReserveBalance < 2 ^ 128

inductive MonadExecutionRevision where
  | vZero
  | vOne
  | vTwo
  | vFour
  deriving DecidableEq

structure ExecutionChainParams where
  maxCodeSize : ℕ
  pragueEnabled : Bool
  validateSystemTxs : Bool
  deriving DecidableEq

def MonadExecutionRevision.executionChainParams : MonadExecutionRevision → ExecutionChainParams
  | .vZero => ⟨24 * 1024, false, false⟩
  | .vOne => ⟨24 * 1024, false, false⟩
  | .vTwo => ⟨128 * 1024, false, false⟩
  | .vFour => ⟨128 * 1024, true, true⟩

structure ChainConfig where
  chainId : ℕ
  getEpochLength : ℕ
  getStakingActivation : ℕ
  /-- By epoch. -/
  getBlockRewardMon : ℕ → ℕ
  /-- The parameters of the revision of a round. -/
  getChainRevision : ℕ → ChainParams
  /-- By seconds. -/
  getExecutionChainRevision : ℕ → MonadExecutionRevision

/-- Nanoseconds to seconds, as 64 bits hold them. -/
def timestampNsToSecs (timestampNs : ℕ) : ℕ := min (timestampNs / 1000000000) U64_MAX

/-! ## Blocks -/

/-- The chain configuration, and what block validation takes from elsewhere. -/
structure EthEnv extends ChainConfig where
  /-- The hash of a block header. -/
  BlockId : Type
  /-- The result of executing a block. -/
  FinalizedHeader : Type
  Ommer : Type
  Withdrawal : Type
  [blockIdEq : DecidableEq BlockId]
  [finalizedHeaderEq : DecidableEq FinalizedHeader]
  GENESIS_BLOCK_ID : BlockId
  /-- The length of a transaction's encoding in a block. -/
  length : TxEnvelope → ℕ
  /-- The length of a transaction's encoding on its own. -/
  eip2718EncodedLength : TxEnvelope → ℕ
  /-- The account of a node's public key. -/
  getEthAddress : NodeId → Address
  /-- The base fee, trend and moment after a block, from the gas limit, gas usage, base fee,
  trend and moment of that block. None if the rule's own assertions fail. -/
  computeBaseFee : ℕ → ℕ → ℕ → ℕ → ℕ → Option (ℕ × ℕ × ℕ)

attribute [instance] EthEnv.blockIdEq EthEnv.finalizedHeaderEq

variable (env : EthEnv)

/-- What block validation reads of a header. -/
structure EthBlockHeader where
  id : env.BlockId
  blockRound : ℕ
  epoch : ℕ
  author : NodeId
  seqNum : ℕ
  timestampNs : ℕ
  delayedExecutionResults : List env.FinalizedHeader
  baseFee : ℕ
  baseFeeTrend : ℕ
  baseFeeMoment : ℕ

structure EthBlockBody where
  transactions : List TxEnvelope
  ommers : List env.Ommer
  withdrawals : List env.Withdrawal

variable {env}

/-- The parameters of execution at the time of a block. -/
def EthBlockHeader.executionChainParams (header : EthBlockHeader env) : ExecutionChainParams :=
  (env.getExecutionChainRevision (timestampNsToSecs header.timestampNs)).executionChainParams

/-- The latest revisions on a chain of its own, with a base fee that does not move. -/
def sampleEnv : EthEnv where
  chainId := 20143
  getEpochLength := 50000
  getStakingActivation := 1
  getBlockRewardMon := fun _ => 25
  getChainRevision := fun _ => ⟨5000, 200000000, 2000000, 10 ^ 19, by decide⟩
  getExecutionChainRevision := fun _ => .vFour
  BlockId := ℕ
  FinalizedHeader := ℕ
  Ommer := Unit
  Withdrawal := Unit
  GENESIS_BLOCK_ID := 0
  length := fun tx => 110 + tx.input.length
  eip2718EncodedLength := fun tx => 110 + tx.input.length
  getEthAddress := fun node => node
  computeBaseFee := fun _ _ _ _ _ => some (100000000000, 0, 0)

/-- A block of round and sequence number `seqNum`, its own id. -/
def sampleHeader (seqNum : ℕ) : EthBlockHeader sampleEnv where
  id := seqNum
  blockRound := seqNum
  epoch := 1
  author := 3
  seqNum := seqNum
  timestampNs := seqNum * 1000000000
  delayedExecutionResults := []
  baseFee := 100000000000
  baseFeeTrend := 0
  baseFeeMoment := 0

def sampleTransfer (signer nonce : ℕ) : TxEnvelope where
  txType := .eip1559
  chainId := some 20143
  nonce := nonce
  gasLimit := 21000
  maxFeePerGas := 100000000000
  priorityFee := 0
  kind := .call 99
  value := 1
  input := []
  accessList := []
  authorizations := []
  signature := ⟨some signer, true⟩

/-- A transaction that carries an authorization of another account. -/
def sampleDelegation (signer nonce authority authorityNonce : ℕ) : TxEnvelope :=
  { sampleTransfer signer nonce with
    txType := .eip7702
    gasLimit := 46000
    authorizations := [⟨⟨0, 42, authorityNonce⟩, some authority⟩] }

end MonadBft
