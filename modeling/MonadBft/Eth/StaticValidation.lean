import MonadBft.Eth.Transaction

/-!
# Static validation of transactions

The checks that need no account state: the gas limit against the limits of the chain and
against the intrinsic gas, the chain id and the form of the signature, the fees, the size of
init code, and for EIP-7702 transactions that authorizations are there.
-/

namespace MonadBft

inductive StaticValidationError where
  | invalidChainId (txChainId : ℕ)
  | maxPriorityOverMaxFee (txMaxPriorityFee txMaxFeePerGas : ℕ)
  | initCodeLimitExceeded (txInputLen maxInitCodeSize : ℕ)
  | encodedLengthLimitExceeded
  | gasLimitUnderFloorDataGas (txGasLimit floorDataGas : ℕ)
  | gasLimitUnderIntrinsicGas (txGasLimit intrinsicGas : ℕ)
  | gasLimitOverTFMGasLimit (txGasLimit tfmMaxGasLimit : ℕ)
  | gasLimitOverProposalGasLimit (txGasLimit proposalGasLimit : ℕ)
  | invalidSignature
  | unsupportedTransactionType
  | authorizationListEmpty
  | authorizationListLengthLimitExceeded
  deriving DecidableEq

def TFM_MAX_GAS_LIMIT : ℕ := 30000000

def EIP_7702_PER_EMPTY_ACCOUNT_COST : ℕ := 25000

variable (tx : TxEnvelope)

def TfmValidator.validate (chainParams : ChainParams) : Except StaticValidationError Unit :=
  if tx.gasLimit > TFM_MAX_GAS_LIMIT then
    .error (.gasLimitOverTFMGasLimit tx.gasLimit TFM_MAX_GAS_LIMIT)
  else if tx.gasLimit > chainParams.proposalGasLimit then
    .error (.gasLimitOverProposalGasLimit tx.gasLimit chainParams.proposalGasLimit)
  else .ok ()

/-! ## Gas -/

def zeroDataLen : ℕ := tx.input.countP fun v => v = 0

def nonZeroDataLen : ℕ := tx.input.length - zeroDataLen tx

/-- The gas a transaction uses before it runs. -/
def computeIntrinsicGas : ℕ :=
  let dataGas := 21000 + zeroDataLen tx * 4 + nonZeroDataLen tx * 16
  let createGas := if tx.isCreate then 32000 + (tx.input.length + 31) / 32 * 2 else 0
  -- Legacy transactions have no access list.
  let accessList := if tx.isLegacy then [] else tx.accessList
  let accessGas := accessList.length * 2400 + accessList.sum * 1900
  let gas := dataGas + createGas + accessGas
  match tx.authorizationList with
  | none => gas
  | some list => min (gas + min (EIP_7702_PER_EMPTY_ACCOUNT_COST * list.length) U64_MAX) U64_MAX

def computeFloorDataGas : ℕ := 21000 + (zeroDataLen tx * 10 + nonZeroDataLen tx * 40)

def YellowPaperValidation.validate : Except StaticValidationError Unit :=
  if tx.gasLimit < computeIntrinsicGas tx then
    .error (.gasLimitUnderIntrinsicGas tx.gasLimit (computeIntrinsicGas tx))
  else .ok ()

/-! ## Forks -/

def EthHomesteadForkValidation.eip2 : Except StaticValidationError Unit :=
  if tx.signature.lowS then .ok () else .error .invalidSignature

/-- A legacy transaction may leave out the chain id. -/
def EthHomesteadForkValidation.eip155 (chainId : ℕ) : Except StaticValidationError Unit :=
  match tx.chainId with
  | none => .ok ()
  | some txChainId => if txChainId ≠ chainId then .error (.invalidChainId txChainId) else .ok ()

def EthHomesteadForkValidation.validate (chainId : ℕ) : Except StaticValidationError Unit := do
  eip2 tx
  eip155 tx chainId

def EthLondonForkValidation.eip1559 : Except StaticValidationError Unit :=
  match tx.maxPriorityFeePerGas with
  | none => .ok ()
  | some txMaxPriorityFee =>
    if txMaxPriorityFee > tx.maxFeePerGas then
      .error (.maxPriorityOverMaxFee txMaxPriorityFee tx.maxFeePerGas)
    else .ok ()

def EthShanghaiForkValidation.eip3860 (params : ExecutionChainParams) :
    Except StaticValidationError Unit :=
  let maxInitCodeSize := 2 * params.maxCodeSize
  if tx.isCreate && decide (tx.input.length > maxInitCodeSize) then
    .error (.initCodeLimitExceeded tx.input.length maxInitCodeSize)
  else .ok ()

def EthPragueForkValidation.eip7623 : Except StaticValidationError Unit :=
  if tx.gasLimit < computeFloorDataGas tx then
    .error (.gasLimitUnderFloorDataGas tx.gasLimit (computeFloorDataGas tx))
  else .ok ()

def EthPragueForkValidation.eip7702 (params : ExecutionChainParams) :
    Except StaticValidationError Unit :=
  if !tx.isEip7702 then .ok ()
  else if !params.pragueEnabled then .error .unsupportedTransactionType
  else if tx.authorizations.isEmpty then .error .authorizationListEmpty
  else .ok ()

def EthPragueForkValidation.validate (params : ExecutionChainParams) :
    Except StaticValidationError Unit := do
  if params.pragueEnabled then eip7623 tx
  eip7702 tx params

/-- All checks that need no account state. -/
def staticValidateTransaction (chainId : ℕ) (chainParams : ChainParams)
    (params : ExecutionChainParams) : Except StaticValidationError Unit :=
  if tx.isEip4844 then .error .unsupportedTransactionType
  else do
    TfmValidator.validate tx chainParams
    EthHomesteadForkValidation.validate tx chainId
    EthLondonForkValidation.eip1559 tx
    EthShanghaiForkValidation.eip3860 tx params
    YellowPaperValidation.validate tx
    EthPragueForkValidation.validate tx params

end MonadBft
