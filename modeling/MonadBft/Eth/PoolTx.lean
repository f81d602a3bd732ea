import MonadBft.Eth.BlockPolicy

/-!
# Transactions of the pool

`PoolTx.validate` is what a transaction must pass to enter the pool. The pool does not take
transactions or authorizations of the system sender, nor calls that are its own, so the
transactions of a proposal never mix with the system transactions that
`getSystemTransactions` puts before them.
-/

namespace MonadBft

abbrev TxHash := ℕ

inductive EthTxPoolInternalDropReason where
  | stateBackendError
  | notReady
  deriving DecidableEq

inductive EthTxPoolDropReason where
  | notWellFormed (error : StaticValidationError)
  | invalidSignature
  | nonceTooLow
  | feeTooLow
  | insufficientBalance
  | existingHigherPriority
  | replacedByHigherPriority (replacement : TxHash)
  | poolFull
  | poolNotReady
  | internal (reason : EthTxPoolInternalDropReason)
  deriving DecidableEq

def DEFAULT_TX_PRIORITY : ℕ := 0xFFFF

def MAX_EIP7702_AUTHORIZATION_LIST_LENGTH : ℕ := 4

def MIN_BASE_FEE : ℕ := 100000000000

def maxEip2718EncodedLength (executionParams : ExecutionChainParams) : ℕ :=
  2 * executionParams.maxCodeSize + 128 * 1024

/-- Where a transaction of the pool comes from. -/
inductive PoolTxKind where
  | owned (priority : ℕ) (extraData : Bytes)
  | forwarded (sender : NodeId)
  deriving DecidableEq

structure PoolTxRecoveredAuthorization where
  authority : Address
  authorization : Authorization
  deriving DecidableEq

structure PoolTx where
  tx : Recovered
  kind : PoolTxKind
  forwardLastSeqnum : ℕ
  forwardRetries : ℕ
  maxValue : ℕ
  maxGasCost : ℕ
  validRecoveredAuthorizations : List PoolTxRecoveredAuthorization
  deriving DecidableEq

namespace PoolTx

/-- Keep the authorizations whose authority can be recovered. The system sender signs none. -/
def recoverAuthorizations :
    List SignedAuthorization → Except EthTxPoolDropReason (List PoolTxRecoveredAuthorization)
  | [] => .ok []
  | signed :: auths =>
    match signed.recoverAuthority with
    | none => recoverAuthorizations auths
    | some authority =>
      if authority = SYSTEM_SENDER_ETH_ADDRESS then .error .invalidSignature
      else do
        let recovered ← recoverAuthorizations auths
        return ⟨authority, signed.toAuthorization⟩ :: recovered

variable {env : EthEnv}

/-- Check a transaction before it enters the pool. -/
def validate (lastCommit : EthBlockHeader env) (chainId : ℕ) (chainParams : ChainParams)
    (executionParams : ExecutionChainParams) (tx : Recovered) (kind : PoolTxKind) :
    Except (Recovered × EthTxPoolDropReason) PoolTx :=
  if env.eip2718EncodedLength tx.toTxEnvelope > maxEip2718EncodedLength executionParams then
    .error (tx, .notWellFormed .encodedLengthLimitExceeded)
  else if isSystemSender tx.signer then .error (tx, .invalidSignature)
  else if StakingContractCall.isRestrictedStakingContractCall tx.toTxEnvelope then
    .error (tx, .invalidSignature)
  else if tx.maxFeePerGas < MIN_BASE_FEE then .error (tx, .feeTooLow)
  else
    let maxValue := computeTxnMaxValue tx.toTxEnvelope lastCommit.baseFee
    let maxGasCost := computeTxnMaxGasCost tx.toTxEnvelope lastCommit.baseFee
    match staticValidateTransaction tx.toTxEnvelope chainId chainParams executionParams with
    | .error error => .error (tx, .notWellFormed error)
    | .ok () =>
      match tx.authorizationList with
      | none => .ok ⟨tx, kind, lastCommit.seqNum, 0, maxValue, maxGasCost, []⟩
      | some signedAuthorizations =>
        if signedAuthorizations.length > MAX_EIP7702_AUTHORIZATION_LIST_LENGTH then
          .error (tx, .notWellFormed .authorizationListLengthLimitExceeded)
        else
          match recoverAuthorizations signedAuthorizations with
          | .error dropReason => .error (tx, dropReason)
          | .ok recovered =>
            .ok ⟨tx, kind, lastCommit.seqNum, 0, maxValue, maxGasCost, recovered⟩

section Accepted

/-- The pool keeps the authorizations that block validation keeps. -/
theorem recoverAuthorizations_eq_ok {auths : List SignedAuthorization}
    {recovered : List PoolTxRecoveredAuthorization} (h : recoverAuthorizations auths = .ok recovered) :
    (recovered.map fun auth => RecoveredAuthorization.mk auth.authorization (some auth.authority)) =
        (auths.filterMap fun auth => auth.recoverAuthority.map fun authority =>
          RecoveredAuthorization.mk auth.toAuthorization (some authority)) ∧
      ∀ auth ∈ recovered, auth.authority ≠ SYSTEM_SENDER_ETH_ADDRESS := by
  induction auths generalizing recovered with
  | nil =>
    cases h
    exact ⟨rfl, fun _ h => by cases h⟩
  | cons signed auths ih =>
    unfold recoverAuthorizations at h
    cases hauth : signed.recoverAuthority with
    | none =>
      rw [hauth] at h
      rw [List.filterMap_cons_none (by rw [hauth]; rfl)]
      exact ih h
    | some authority =>
      rw [hauth] at h
      dsimp only at h
      split at h
      · cases h
      next hsystem =>
        obtain ⟨rest, hrest, h⟩ := bind_eq_ok.mp h
        cases h
        obtain ⟨hmap, hall⟩ := ih hrest
        rw [List.filterMap_cons_some (by rw [hauth]; rfl), List.map_cons, hmap]
        exact ⟨rfl, List.forall_mem_cons.mpr ⟨hsystem, hall⟩⟩

/-- What the pool knows of a transaction it took. -/
structure Accepts (tx : Recovered) (pooled : PoolTx) : Prop where
  raw : pooled.tx = tx
  notForbidden : isForbidden tx = false
  authorizations : (pooled.validRecoveredAuthorizations.map fun auth =>
    RecoveredAuthorization.mk auth.authorization (some auth.authority)) =
      (MonadBft.recoverAuthorizations tx).authorizations7702
  notSystem : ∀ auth ∈ pooled.validRecoveredAuthorizations,
    auth.authority ≠ SYSTEM_SENDER_ETH_ADDRESS

theorem validate_eq_ok {lastCommit : EthBlockHeader env} {chainId : ℕ} {chainParams : ChainParams}
    {executionParams : ExecutionChainParams} {tx : Recovered} {kind : PoolTxKind} {pooled : PoolTx}
    (h : validate lastCommit chainId chainParams executionParams tx kind = .ok pooled) :
    Accepts tx pooled := by
  unfold validate at h
  split at h
  · cases h
  split at h
  · cases h
  next hsender =>
  split at h
  · cases h
  next hcall =>
  have hforbidden : isForbidden tx = false := by
    unfold isForbidden
    rw [Bool.eq_false_iff.mpr hsender, Bool.eq_false_iff.mpr hcall]
    rfl
  split at h
  · cases h
  split at h
  · cases h
  unfold TxEnvelope.authorizationList at h
  split at h
  next hnone =>
    have hlist : tx.isEip7702 = false := by
      by_contra hlist
      rw [if_pos (by simpa using hlist)] at hnone
      cases hnone
    cases h
    refine ⟨rfl, hforbidden, ?_, fun _ h => by cases h⟩
    unfold MonadBft.recoverAuthorizations
    rw [hlist]
    rfl
  next auths hsome =>
    have hlist : tx.isEip7702 = true ∧ tx.authorizations = auths := by
      by_cases hlist : tx.isEip7702 = true
      · rw [if_pos hlist] at hsome
        exact ⟨hlist, Option.some.inj hsome⟩
      · rw [if_neg hlist] at hsome
        cases hsome
    split at h
    · cases h
    split at h
    · cases h
    next recovered hrecovered =>
      cases h
      obtain ⟨hmap, hall⟩ := recoverAuthorizations_eq_ok hrecovered
      refine ⟨rfl, hforbidden, ?_, hall⟩
      unfold MonadBft.recoverAuthorizations
      rw [if_pos hlist.1, hlist.2]
      exact hmap

end Accepted

end PoolTx

namespace EthBlockPolicy

variable {env : EthEnv}

def getSystemTransactions (policy : EthBlockPolicy env) (proposedEpoch proposedSeqNum : ℕ)
    (blockAuthor : Address) (extendingBlocks : List (EthValidatedBlock env))
    (backend : StateBackend env) : Except PolicyFailure (List Recovered) := do
  let nonces ← policy.getAccountBaseNonces proposedSeqNum backend extendingBlocks
    [SYSTEM_SENDER_ETH_ADDRESS]
  match nonces SYSTEM_SENDER_ETH_ADDRESS with
  | none => .error (.panic .accountNoncesMissing)
  | some nextSystemTxnNonce => do
    let parentBlockEpoch ← policy.parentBlockEpoch proposedSeqNum extendingBlocks
    return generateSystemTransactions env.toChainConfig proposedSeqNum proposedEpoch
      parentBlockEpoch blockAuthor nextSystemTxnNonce

theorem getSystemTransactions_eq_ok {policy : EthBlockPolicy env}
    {proposedEpoch proposedSeqNum : ℕ} {blockAuthor : Address}
    {extendingBlocks : List (EthValidatedBlock env)} {backend : StateBackend env}
    {sys : List Recovered} :
    policy.getSystemTransactions proposedEpoch proposedSeqNum blockAuthor extendingBlocks backend =
        .ok sys ↔
      ∃ nonces nonce parentBlockEpoch,
        policy.getAccountBaseNonces proposedSeqNum backend extendingBlocks
          [SYSTEM_SENDER_ETH_ADDRESS] = .ok nonces ∧
        nonces SYSTEM_SENDER_ETH_ADDRESS = some nonce ∧
        policy.parentBlockEpoch proposedSeqNum extendingBlocks = .ok parentBlockEpoch ∧
        sys = generateSystemTransactions env.toChainConfig proposedSeqNum proposedEpoch
          parentBlockEpoch blockAuthor nonce := by
  constructor
  · intro h
    obtain ⟨nonces, hnonces, h⟩ := bind_eq_ok.mp h
    split at h
    · cases h
    next nonce hnonce =>
      obtain ⟨epoch, hepoch, h⟩ := bind_eq_ok.mp h
      exact ⟨nonces, nonce, epoch, hnonces, hnonce, hepoch, (Except.ok.inj h).symm⟩
  · rintro ⟨nonces, nonce, epoch, hnonces, hnonce, hepoch, rfl⟩
    refine bind_eq_ok.mpr ⟨nonces, hnonces, ?_⟩
    rw [hnonce, hepoch]
    rfl

end EthBlockPolicy

end MonadBft
