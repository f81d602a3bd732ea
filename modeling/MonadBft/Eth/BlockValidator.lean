import MonadBft.Eth.NonceUsage
import MonadBft.Eth.Reserve
import MonadBft.Eth.StaticValidation
import MonadBft.Eth.SystemCalls

/-!
# Validation of a block body

`validateBlockBody` checks a body on its own: the limits of the block, the signatures, the
system transactions, the static rules for each transaction, and that the nonces an account
uses inside the block have no gap. It also sums the body up for later blocks, in one pass
over the transactions (`addTransaction`): which nonces it uses (`NonceUsageMap`) and what it
can cost each account (`TxnFees`).

`validateBlockBody_eq_ok` takes an accepted body apart.
-/

namespace MonadBft

open Function

inductive PayloadError (env : EthEnv) where
  | nonEmptyOmmers (ommers : List env.Ommer)
  | nonEmptyWithdrawals (withdrawals : List env.Withdrawal)
  | exceededNumTxnLimit (numTxs : ℕ)
  | exceededBlockGasLimit (totalGas : ℕ)
  | exceededBlockSizeLimit (txsSize : ℕ)

inductive TxnError where
  | signerRecoveryError
  | staticValidationError (error : StaticValidationError)
  | maxFeeLessThanBaseFee
  | invalidSystemAccountAuthorization
  | nonceOverflow
  | invalidNonce
  deriving DecidableEq

inductive EthBlockValidationError (env : EthEnv) where
  | payloadError (error : PayloadError env)
  | systemTxnError (error : SystemTransactionValidationError)
  | txnError (error : TxnError)

/-! ## The pass over the transactions -/

/-- What later blocks need to know of a body. -/
structure BodySummary where
  nonceUsages : NonceUsageMap
  txnFees : TxnFees

namespace BodySummary

def empty : BodySummary := ⟨fun _ => none, fun _ => none⟩

/-- A transaction uses the nonce after the last known one. After authorizations alone, that
cannot be seen within the block. -/
def checkNonce (oldNonceUsage : Option NonceUsage) (nonce : ℕ) : Except TxnError Unit :=
  match oldNonceUsage with
  | none => .ok ()
  | some (.possible _) => .ok ()
  | some (.known oldNonce) =>
    if oldNonce = U64_MAX then .error .nonceOverflow
    else if oldNonce + 1 ≠ nonce then .error .invalidNonce
    else .ok ()

/-- System transactions come first, so there are no possible nonces yet. -/
def checkSystemNonce (oldNonceUsage : Option NonceUsage) (nonce : ℕ) : Except TxnError Unit :=
  match oldNonceUsage with
  | none => .ok ()
  | some (.possible _) => .error .invalidNonce
  | some (.known oldNonce) =>
    if oldNonce = U64_MAX then .error .nonceOverflow
    else if oldNonce + 1 ≠ nonce then .error .invalidNonce
    else .ok ()

def addKnown (usages : NonceUsageMap) (signer : Address) (nonce : ℕ) : NonceUsageMap :=
  update usages signer (some (.known nonce))

/-- The nonces of system transactions. -/
def addSystemTransaction (usages : NonceUsageMap) (sysTxn : ValidatedTx) :
    Except TxnError NonceUsageMap := do
  checkSystemNonce (usages sysTxn.signer) sysTxn.nonce
  return addKnown usages sysTxn.signer sysTxn.nonce

/-- The fees of an account that authorizes a delegation. -/
def delegateFee : Option TxnFee → TxnFee
  | some fee => { fee with isDelegated := true }
  | none => ⟨0, 0, 0, true, true⟩

/-- The usage of an account's nonce with one more authorization. -/
def authorizeNonce (usage : Option NonceUsage) (nonce : ℕ) : Except TxnError NonceUsage :=
  match usage with
  | some (.known oldNonce) =>
    if oldNonce = U64_MAX then .error .nonceOverflow
    else .ok (.known (if oldNonce + 1 = nonce then oldNonce + 1 else oldNonce))
  | some (.possible possibleNonces) => .ok (.possible (possibleNonces ++ [nonce]))
  | none => .ok (.possible [nonce])

/-- An authorization counts for nonces if it is for this chain, or for every chain. -/
def isForChain (chainId : ℕ) (auth : RecoveredAuthorization) : Bool :=
  decide (auth.chainId = 0) || decide (auth.chainId = chainId)

def addAuthorization (chainId : ℕ) (summary : BodySummary) (auth : RecoveredAuthorization) :
    Except TxnError BodySummary :=
  match auth.authority with
  | none => .ok summary
  | some authority =>
    if authority = SYSTEM_SENDER_ETH_ADDRESS then .error .invalidSystemAccountAuthorization
    else
      let txnFees :=
        update summary.txnFees authority (some (delegateFee (summary.txnFees authority)))
      if !isForChain chainId auth then .ok ⟨summary.nonceUsages, txnFees⟩
      else do
        let usage ← authorizeNonce (summary.nonceUsages authority) auth.nonce
        return ⟨update summary.nonceUsages authority (some usage), txnFees⟩

/-- The fees of an account with one more transaction. -/
def chargeFee (value gas : ℕ) : Option TxnFee → TxnFee
  | some fee => { fee with maxGasCost := saturatingAdd fee.maxGasCost gas }
  | none => ⟨value, gas, 0, false, false⟩

/-- Enter a transaction, its authorizations before its fees. -/
def addTransaction (chainId baseFee : ℕ) (summary : BodySummary) (txn : ValidatedTx) :
    Except TxnError BodySummary :=
  if txn.maxFeePerGas < baseFee then .error .maxFeeLessThanBaseFee
  else do
    checkNonce (summary.nonceUsages txn.signer) txn.nonce
    let nonceUsages := addKnown summary.nonceUsages txn.signer txn.nonce
    let summary ←
      (if txn.isEip7702 then txn.authorizations7702 else []).foldlM (addAuthorization chainId)
        ⟨nonceUsages, summary.txnFees⟩
    return ⟨summary.nonceUsages,
      update summary.txnFees txn.signer
        (some (chargeFee txn.value (computeTxnMaxGasCost txn.toTxEnvelope baseFee)
          (summary.txnFees txn.signer)))⟩

end BodySummary

/-! ## Bodies -/

def recoverSigners : List TxEnvelope → Except TxnError (List Recovered)
  | [] => .ok []
  | tx :: txs =>
    match tx.signature.recovered with
    | none => .error .signerRecoveryError
    | some signer => do
      let recovered ← recoverSigners txs
      return ⟨tx, signer⟩ :: recovered

/-- Keep the authorizations whose authority can be recovered. -/
def recoverAuthorizations (txn : Recovered) : ValidatedTx where
  toRecovered := txn
  authorizations7702 :=
    if txn.isEip7702 then
      txn.authorizations.filterMap fun auth =>
        auth.recoverAuthority.map fun authority => ⟨auth.toAuthorization, some authority⟩
    else []

/-- Only EIP-7702 transactions have authorizations. -/
def ValidatedTx.WellFormed (txn : ValidatedTx) : Prop :=
  txn.isEip7702 = false → txn.authorizations7702 = []

theorem wellFormed_recoverAuthorizations (txn : Recovered) :
    (recoverAuthorizations txn).WellFormed := fun h => by
  have h' : txn.isEip7702 = false := h
  simp [recoverAuthorizations, h']

theorem ValidatedTx.WellFormed.authorizations {txn : ValidatedTx} (h : txn.WellFormed) :
    (if txn.isEip7702 then txn.authorizations7702 else []) = txn.authorizations7702 := by
  split
  · rfl
  next hne => exact (h (by simpa using hne)).symm

/-- A total that fits in 64 bits. -/
def checkedTotalGas (txs : List TxEnvelope) : Option ℕ :=
  txs.foldlM
    (fun acc tx => if acc + tx.gasLimit ≤ U64_MAX then some (acc + tx.gasLimit) else none) 0

def staticValidateAll (chainId : ℕ) (chainParams : ChainParams) (params : ExecutionChainParams) :
    List Recovered → Except TxnError Unit
  | [] => .ok ()
  | txn :: txns =>
    match staticValidateTransaction txn.toTxEnvelope chainId chainParams params with
    | .error error => .error (.staticValidationError error)
    | .ok () => staticValidateAll chainId chainParams params txns

/-- A validated body: its system transactions, its other transactions, and its summary. -/
structure ValidatedBody where
  systemTxns : List ValidatedTx
  validatedTxns : List ValidatedTx
  summary : BodySummary

variable {env : EthEnv}

def sizeOfTxns (env : EthEnv) (txns : List TxEnvelope) : ℕ := (txns.map env.length).sum

/-- Check a body on its own and sum it up. -/
def validateBlockBody (header : EthBlockHeader env) (body : EthBlockBody env) :
    Except (EthBlockValidationError env) ValidatedBody :=
  let chainParams := env.getChainRevision header.blockRound
  if !body.ommers.isEmpty then .error (.payloadError (.nonEmptyOmmers body.ommers))
  else if !body.withdrawals.isEmpty then
    .error (.payloadError (.nonEmptyWithdrawals body.withdrawals))
  else if body.transactions.length > chainParams.txLimit then
    .error (.payloadError (.exceededNumTxnLimit body.transactions.length))
  else
    match checkedTotalGas body.transactions with
    | none => .error (.payloadError (.exceededBlockGasLimit U64_MAX))
    | some totalGas =>
      if totalGas > chainParams.proposalGasLimit then
        .error (.payloadError (.exceededBlockGasLimit totalGas))
      else do
        let recoveredTxns ← (recoverSigners body.transactions).mapError .txnError
        let (systemTxns, ethTxns) ←
          (extractSystemTransactions header recoveredTxns).mapError .systemTxnError
        let proposalSize := sizeOfTxns env (systemTxns.map fun txn => txn.toTxEnvelope) +
          sizeOfTxns env (ethTxns.map fun txn => txn.toTxEnvelope)
        if proposalSize > chainParams.proposalByteLimit then
          .error (.payloadError (.exceededBlockSizeLimit proposalSize))
        else do
          let nonceUsages ← (systemTxns.foldlM BodySummary.addSystemTransaction
            fun _ => none).mapError .txnError
          (staticValidateAll env.chainId chainParams header.executionChainParams
            ethTxns).mapError .txnError
          let validatedTxns := ethTxns.map recoverAuthorizations
          let summary ← (validatedTxns.foldlM
            (BodySummary.addTransaction env.chainId header.baseFee)
            ⟨nonceUsages, fun _ => none⟩).mapError .txnError
          return ⟨systemTxns, validatedTxns, summary⟩

/-! ## Accepted bodies -/

theorem mapError_eq_ok {ε ε' α : Type} {f : ε → ε'} {x : Except ε α} {a : α} :
    x.mapError f = .ok a ↔ x = .ok a := by
  cases x <;> simp [Except.mapError]

/-- How an accepted body was summed up. -/
structure Accepted (header : EthBlockHeader env) (body : EthBlockBody env) (out : ValidatedBody)
    (recoveredTxns ethTxns : List Recovered) (nonceUsages : NonceUsageMap) : Prop where
  recovered : recoverSigners body.transactions = .ok recoveredTxns
  extracted : extractSystemTransactions header recoveredTxns = .ok (out.systemTxns, ethTxns)
  systemNonces : out.systemTxns.foldlM BodySummary.addSystemTransaction (fun _ => none) =
    .ok nonceUsages
  validatedTxns : out.validatedTxns = ethTxns.map recoverAuthorizations
  summary : out.validatedTxns.foldlM (BodySummary.addTransaction env.chainId header.baseFee)
    ⟨nonceUsages, fun _ => none⟩ = .ok out.summary

theorem validateBlockBody_eq_ok {header : EthBlockHeader env} {body : EthBlockBody env}
    {out : ValidatedBody} (h : validateBlockBody header body = .ok out) :
    ∃ recoveredTxns ethTxns nonceUsages,
      Accepted header body out recoveredTxns ethTxns nonceUsages := by
  unfold validateBlockBody at h
  dsimp only at h
  split at h
  · cases h
  split at h
  · cases h
  split at h
  · cases h
  split at h
  · cases h
  split at h
  · cases h
  obtain ⟨recoveredTxns, hrecovered, h⟩ := bind_eq_ok.mp h
  obtain ⟨⟨systemTxns, ethTxns⟩, hextracted, h⟩ := bind_eq_ok.mp h
  split at h
  · cases h
  obtain ⟨nonceUsages, hnonces, h⟩ := bind_eq_ok.mp h
  obtain ⟨_, -, h⟩ := bind_eq_ok.mp h
  obtain ⟨summary, hsummary, h⟩ := bind_eq_ok.mp h
  cases h
  exact ⟨recoveredTxns, ethTxns, nonceUsages, mapError_eq_ok.mp hrecovered,
    mapError_eq_ok.mp hextracted, mapError_eq_ok.mp hnonces, rfl,
    mapError_eq_ok.mp hsummary⟩

end MonadBft
