import MonadBft.Eth.BaseNonces
import MonadBft.Eth.PoolTx

/-!
# System transactions

A leader puts the transactions of `generateSystemTransactions` before those of the pool. The
key of the system sender is public, so a block can hold any transaction that claims to be one.
Extraction checks what every system transaction has in common, `validateCalls` compares with the
expected calls, and the nonce check fixes the order. Together they leave nothing open
(`systemTransactions_exact`).
-/

namespace MonadBft

open EthBlockPolicy Function List StakingContractCall TxEnvelope

variable {env : EthEnv} {extending : List (EthValidatedBlock env)} {policy : EthBlockPolicy env}
  {backend : StateBackend env} {header : EthBlockHeader env} {userTxns sys : List Recovered}
  {nonces : AddressMap ℕ} {nonce : ℕ}

/-- What is fixed about a system transaction. -/
def TxEnvelope.systemFields (tx : TxEnvelope) :
    Option ℕ × ℕ × Option ℕ × ℕ × Option Address × ℕ × Bytes :=
  (tx.chainId, tx.nonce, tx.gasPrice, tx.gasLimit, tx.toAddress, tx.value, tx.input)

/-- A system transaction as it is extracted from a block. -/
def systemTxn (txn : Recovered) : ValidatedTx := ⟨txn, []⟩

/-! ## Generated transactions are accepted -/

section Generated

theorem takeSystemTransactions_signSystemCalls (config : ChainConfig) (nonce : ℕ)
    (calls : List StakingContractCall) (huser : ∀ txn ∈ userTxns, isForbidden txn = false) :
    takeSystemTransactions config (signSystemCalls config.chainId nonce calls ++ userTxns) =
      .ok ((signSystemCalls config.chainId nonce calls).map systemTxn, userTxns) := by
  induction calls generalizing nonce with
  | nil =>
    cases userTxns with
    | nil => rfl
    | cons txn txns =>
      have hsender : isSystemSender txn.signer = false :=
        (Bool.or_eq_false_iff.mp (huser txn mem_cons_self)).1
      change takeSystemTransactions config (txn :: txns) = .ok ([], txn :: txns)
      unfold takeSystemTransactions
      rw [hsender]
      rfl
  | cons call calls ih =>
    have hstatic : staticValidateSystemTransaction config
        (call.intoSignedTransaction config.chainId nonce) = .ok () := by
      unfold staticValidateSystemTransaction intoSignedTransaction
      simp [isSystemSender, isLegacy, gasPrice, isCreate]
    have hsender : isSystemSender (call.intoSignedTransaction config.chainId nonce).signer = true :=
      decide_eq_true rfl
    rw [signSystemCalls, cons_append, takeSystemTransactions, hsender, hstatic, ih]
    rfl

theorem validateCalls_signSystemCalls (chainId nonce : ℕ) (calls : List StakingContractCall) :
    validateCalls calls ((signSystemCalls chainId nonce calls).map systemTxn) = .ok () := by
  induction calls generalizing nonce with
  | nil => rfl
  | cons call calls ih =>
    have hcall : call.validateSystemTransactionInput
        (systemTxn (call.intoSignedTransaction chainId nonce)) = .ok () := by
      unfold validateSystemTransactionInput systemTxn intoSignedTransaction
      simp [toAddress]
    rw [signSystemCalls, map_cons, validateCalls, hcall]
    exact ih (nonce + 1)

theorem length_signSystemCalls (chainId nonce : ℕ) (calls : List StakingContractCall) :
    (signSystemCalls chainId nonce calls).length = calls.length := by
  induction calls generalizing nonce with
  | nil => rfl
  | cons call calls ih => rw [signSystemCalls, length_cons, length_cons, ih]

theorem systemTransactionNonceCheck_signSystemCalls (chainId : ℕ) (calls : List StakingContractCall)
    (h : nonces SYSTEM_SENDER_ETH_ADDRESS = some nonce) :
    ∃ nonces', systemTransactionNonceCheck
      ((signSystemCalls chainId nonce calls).map systemTxn) nonces = .ok nonces' := by
  induction calls generalizing nonce nonces with
  | nil => exact ⟨nonces, rfl⟩
  | cons call calls ih =>
    have hcheck : nonceCheckAndUpdate nonces (call.intoSignedTransaction chainId nonce) =
        .ok (update nonces SYSTEM_SENDER_ETH_ADDRESS (some (nonce + 1))) := by
      unfold nonceCheckAndUpdate
      rw [show nonces (call.intoSignedTransaction chainId nonce).signer = some nonce from h]
      exact if_neg (not_not_intro rfl)
    obtain ⟨nonces', hrest⟩ := ih (update_self SYSTEM_SENDER_ETH_ADDRESS _ _)
    exact ⟨nonces', foldlM_cons_eq_ok.mpr ⟨_, hcheck, hrest⟩⟩

end Generated

/-! ## Accepted transactions are the generated ones -/

section Accepted

variable {config : ChainConfig} {txn : ValidatedTx}

theorem staticValidateSystemTransaction_eq_ok {txn : Recovered}
    (h : staticValidateSystemTransaction config txn = .ok ()) :
    txn.signer = SYSTEM_SENDER_ETH_ADDRESS ∧ txn.isEip7702 = false ∧
      txn.chainId = some config.chainId ∧ txn.gasPrice = some 0 ∧ txn.gasLimit = 0 := by
  unfold staticValidateSystemTransaction at h
  split at h
  · cases h
  next hsender =>
  split at h
  · cases h
  next hlegacy =>
  split at h
  · cases h
  next hchain =>
  split at h
  · cases h
  split at h
  · cases h
  next hprice =>
  split at h
  · cases h
  next hgas =>
  have htype : txn.txType = .legacy := by simpa [isLegacy] using hlegacy
  refine ⟨by simpa [isSystemSender] using hsender, ?_, not_not.mp hchain, not_not.mp hprice,
    not_not.mp hgas⟩
  unfold isEip7702
  rw [htype]
  rfl

/-- Extraction splits the transactions. -/
theorem takeSystemTransactions_eq_ok {txns : List Recovered} {sysTxns : List ValidatedTx}
    (h : takeSystemTransactions config txns = .ok (sysTxns, userTxns)) :
    ∃ sys, txns = sys ++ userTxns ∧ sysTxns = sys.map systemTxn ∧
      ∀ txn ∈ sys, staticValidateSystemTransaction config txn = .ok () := by
  fun_induction takeSystemTransactions config txns generalizing sysTxns userTxns with
  | case1 =>
    cases h
    exact ⟨[], rfl, rfl, fun _ h => by cases h⟩
  | case2 =>
    cases h
    exact ⟨[], rfl, rfl, fun _ h => by cases h⟩
  | case3 => cases h
  | case4 txn _ _ hstatic ih =>
    obtain ⟨⟨sysTxns', userTxns'⟩, htake, h⟩ := bind_eq_ok.mp h
    cases h
    obtain ⟨sys, rfl, rfl, hall⟩ := ih htake
    exact ⟨txn :: sys, rfl, rfl, forall_mem_cons.mpr ⟨hstatic, hall⟩⟩

theorem validateSystemTransactionInput_eq_ok {call : StakingContractCall}
    (h : call.validateSystemTransactionInput txn = .ok ()) :
    txn.toAddress = some STAKING_CONTRACT_ADDRESS ∧ txn.input = call.getTransactionInput ∧
      txn.value = call.getTransactionValue := by
  unfold validateSystemTransactionInput at h
  split at h
  · cases h
  next haddress =>
  split at h
  · cases h
  next hinput =>
  split at h
  · cases h
  next hvalue => exact ⟨not_not.mp haddress, not_not.mp hinput, not_not.mp hvalue⟩

/-- What the steps compare is all that is fixed about a system transaction. -/
theorem systemFields_eq {calls : List StakingContractCall} (hlen : calls.length = sys.length)
    (hstatic : ∀ txn ∈ sys, staticValidateSystemTransaction config txn = .ok ())
    (hcalls : validateCalls calls (sys.map systemTxn) = .ok ()) {nonces' : AddressMap ℕ}
    (hnonce : sys ≠ [] → nonces SYSTEM_SENDER_ETH_ADDRESS = some nonce)
    (hcheck : systemTransactionNonceCheck (sys.map systemTxn) nonces = .ok nonces') :
    (sys.map fun txn => txn.systemFields) =
      (signSystemCalls config.chainId nonce calls).map fun txn => txn.systemFields := by
  induction sys generalizing calls nonce nonces with
  | nil =>
    obtain rfl := eq_nil_of_length_eq_zero hlen
    rfl
  | cons txn sys ih =>
    obtain ⟨call, calls, rfl⟩ := exists_cons_of_length_eq_add_one hlen
    obtain ⟨hstatic, hstatics⟩ := forall_mem_cons.mp hstatic
    obtain ⟨hsigner, -, hchain, hprice, hgas⟩ := staticValidateSystemTransaction_eq_ok hstatic
    obtain ⟨_, hcall, hcalls⟩ := bind_eq_ok.mp hcalls
    obtain ⟨haddress, hinput, hvalue⟩ := validateSystemTransactionInput_eq_ok hcall
    obtain ⟨nonces₁, hnext, hcheck⟩ := foldlM_cons_eq_ok.mp hcheck
    obtain ⟨hexpected, rfl⟩ := nonceCheckAndUpdate_eq_ok hnext
    replace hexpected : nonces SYSTEM_SENDER_ETH_ADDRESS = some txn.nonce := by
      rw [← hsigner]
      exact hexpected
    have heq : nonce = txn.nonce :=
      Option.some.inj ((hnonce (cons_ne_nil _ _)).symm.trans hexpected)
    have hrest : (sys.map fun txn => txn.systemFields) =
        (signSystemCalls config.chainId (nonce + 1) calls).map fun txn => txn.systemFields := by
      refine ih (Nat.succ.inj hlen) hstatics hcalls (fun _ => ?_) hcheck
      rw [← hsigner, heq]
      exact update_self _ _ _
    rw [map_cons, signSystemCalls, map_cons, hrest]
    congr 1
    unfold systemFields
    rw [hchain, hprice, hgas, ← heq, show txn.toAddress = _ from haddress,
      show txn.input = _ from hinput, show txn.value = _ from hvalue]
    rfl

/-- No authorization of a transaction that is entered is the system sender's. -/
theorem authority_ne_system {chainId baseFee : ℕ} {summary summary' : BodySummary}
    (h : BodySummary.addTransaction chainId baseFee summary txn = .ok summary')
    (htype : txn.isEip7702 = true) {auth : RecoveredAuthorization}
    (hauth : auth ∈ txn.authorizations7702) : auth.authority ≠ some SYSTEM_SENDER_ETH_ADDRESS := by
  unfold BodySummary.addTransaction at h
  split at h
  · cases h
  obtain ⟨_, -, h⟩ := bind_eq_ok.mp h
  obtain ⟨_, hauths, -⟩ := bind_eq_ok.mp h
  obtain ⟨_, _, hadd⟩ := foldlM_mem_eq_ok hauths hauth
  intro hsystem
  unfold BodySummary.addAuthorization at hadd
  rw [hsystem] at hadd
  cases hadd

/-- The base nonce of an account does not depend on the other accounts. -/
theorem getAccountBaseNonces_of_mem {seqNum : ℕ} {addresses : List Address}
    (h : policy.getAccountBaseNonces seqNum backend extending addresses = .ok nonces)
    (addresses' : List Address) :
    ∃ nonces', policy.getAccountBaseNonces seqNum backend extending addresses' = .ok nonces' ∧
      (∀ address ∈ addresses', nonces' address ≠ none) ∧
      ∀ address ∈ addresses, address ∈ addresses' → nonces' address = nonces address := by
  obtain ⟨statuses, hstatuses, h⟩ := bind_eq_ok.mp h
  cases h
  refine ⟨_, bind_eq_ok.mpr ⟨statuses, hstatuses, rfl⟩, fun address haddress => ?_,
    fun address haddress haddress' => ?_⟩
  · dsimp only
    rw [if_pos haddress]
    split <;> simp
  · have hsame : ∀ l : List Address, address ∈ l → NonceUsageMap.getNonceUsages
        (policy.nonceUsagesAfter (policy.baseSeqNum seqNum) extending l) address =
        NonceUsageMap.getNonceUsages
          (policy.nonceUsagesAfter (policy.baseSeqNum seqNum) extending [address]) address := by
      intro l hl
      refine NonceUsageMap.getNonceUsages_congr ?_
      unfold EthBlockPolicy.nonceUsagesAfter
      simp [comp_def, hl]
    dsimp only
    rw [if_pos haddress, if_pos haddress', hsame _ haddress, hsame _ haddress']

end Accepted

/-! ## Nothing is forged, omitted or misplaced -/

/-- The signers of a block's transactions are known. -/
theorem recoverSigners_eq_ok {txs : List TxEnvelope} {recovered : List Recovered}
    (h : recoverSigners txs = .ok recovered) :
    (recovered.map fun txn => txn.toTxEnvelope) = txs := by
  fun_induction recoverSigners txs generalizing recovered with
  | case1 =>
    cases h
    rfl
  | case2 => cases h
  | case3 tx txs signer hsigner ih =>
    obtain ⟨rest, hrest, h⟩ := bind_eq_ok.mp h
    cases h
    rw [map_cons, ih hrest]

theorem validateSystemTransactionsInput_eq_ok {parentBlockEpoch : ℕ} {sysTxns : List ValidatedTx}
    (hvalidate : header.executionChainParams.validateSystemTxs = true) :
    validateSystemTransactionsInput header parentBlockEpoch sysTxns = .ok () ↔
      let calls := generateSystemCalls env.toChainConfig header.seqNum header.epoch
        parentBlockEpoch (env.getEthAddress header.author)
      calls.length = sysTxns.length ∧ validateCalls calls sysTxns = .ok () := by
  unfold validateSystemTransactionsInput
  rw [hvalidate]
  dsimp only
  generalize generateSystemCalls env.toChainConfig header.seqNum header.epoch parentBlockEpoch
    (env.getEthAddress header.author) = calls
  by_cases hlen : calls.length = sysTxns.length
  · rw [if_neg (not_not_intro hlen)]
    cases validateCalls calls sysTxns with
    | error e => simp
    | ok u => simp [hlen]
  · rw [if_pos hlen]
    simp [hlen]

theorem generated_accepted (hvalidate : header.executionChainParams.validateSystemTxs = true)
    (hsys : policy.getSystemTransactions header.epoch header.seqNum (env.getEthAddress header.author) extending backend = .ok sys)
    (huser : ∀ txn ∈ userTxns, isForbidden txn = false) :
    extractSystemTransactions header (sys ++ userTxns) = .ok (sys.map systemTxn, userTxns) ∧
    ∀ block : EthValidatedBlock env, block.header = header → block.systemTxns = sys.map systemTxn →
      policy.validateSystemTransactionsInput block extending = .ok () ∧
      ∃ nonces nonces', policy.getAccountBaseNonces header.seqNum backend extending
          (extractSigners block.validatedTxns block.systemTxns) = .ok nonces ∧
        systemTransactionNonceCheck block.systemTxns nonces = .ok nonces' := by
  obtain ⟨base, nonce, epoch, hbase, hnonce, hepoch, rfl⟩ := getSystemTransactions_eq_ok.mp hsys
  unfold generateSystemTransactions
  constructor
  · unfold extractSystemTransactions
    rw [hvalidate, takeSystemTransactions_signSystemCalls _ _ _ huser]
    have hany : userTxns.any isForbidden = false :=
      any_eq_false.mpr fun txn htxn => by simp [huser txn htxn]
    dsimp only [bind, Except.bind]
    rw [hany]
    rfl
  · rintro block rfl hblock
    constructor
    · refine bind_eq_ok.mpr ⟨epoch, hepoch, ?_⟩
      have hinput := (@validateSystemTransactionsInput_eq_ok _ _ epoch block.systemTxns
        hvalidate).mpr ⟨?_, ?_⟩
      · rw [hinput]
      · rw [hblock, length_map, length_signSystemCalls]
      · rw [hblock]
        exact validateCalls_signSystemCalls _ _ _
    · obtain ⟨nonces, hnonces, -, hsame⟩ := getAccountBaseNonces_of_mem hbase
        (extractSigners block.validatedTxns block.systemTxns)
      generalize generateSystemCalls env.toChainConfig block.header.seqNum block.header.epoch epoch
        (env.getEthAddress block.header.author) = calls at hblock
      cases calls with
      | nil => exact ⟨nonces, nonces, hnonces, by rw [hblock]; rfl⟩
      | cons call calls =>
        have hmem : SYSTEM_SENDER_ETH_ADDRESS ∈
            extractSigners block.validatedTxns block.systemTxns := by
          rw [hblock]
          exact mem_append_right _ mem_cons_self
        obtain ⟨nonces', hcheck⟩ := systemTransactionNonceCheck_signSystemCalls
          env.chainId (call :: calls)
          ((hsame SYSTEM_SENDER_ETH_ADDRESS (mem_singleton_self _) hmem).trans hnonce)
        exact ⟨nonces, nonces', hnonces, by rw [hblock]; exact hcheck⟩

/-- The transactions of the system sender in a block that passes. -/
theorem accepted_generated {block : EthValidatedBlock env} {rootSeqNum : ℕ}
    (hvalidate : block.header.executionChainParams.validateSystemTxs = true)
    (hsys : block.systemTxns = sys.map systemTxn)
    (hstatic : ∀ txn ∈ sys, staticValidateSystemTransaction env.toChainConfig txn = .ok ())
    (hcheck : policy.checkCoherency block extending rootSeqNum backend = .ok ()) :
    ∃ generated, policy.getSystemTransactions block.header.epoch block.header.seqNum
        (env.getEthAddress block.header.author) extending backend = .ok generated ∧
      (sys.map fun txn => txn.systemFields) = generated.map fun txn => txn.systemFields := by
  obtain ⟨nonces, nonces₁, _, _, hcoherent⟩ := checkCoherency_eq_ok hcheck
  obtain ⟨epoch, hepoch, hinput⟩ := bind_eq_ok.mp hcoherent.systemInput
  obtain ⟨base, hbase, hsome, hsame⟩ := getAccountBaseNonces_of_mem hcoherent.baseNonces
    [SYSTEM_SENDER_ETH_ADDRESS]
  obtain ⟨nonce, hnonce⟩ := Option.ne_none_iff_exists'.mp
    (hsome SYSTEM_SENDER_ETH_ADDRESS (mem_singleton_self _))
  have hinput' : validateSystemTransactionsInput block.header epoch block.systemTxns = .ok () := by
    cases h : validateSystemTransactionsInput block.header epoch block.systemTxns with
    | ok u => rfl
    | error e =>
      rw [h] at hinput
      cases e <;> cases hinput
  obtain ⟨hlen, hcalls⟩ := (validateSystemTransactionsInput_eq_ok hvalidate).mp hinput'
  rw [hsys] at hcalls
  rw [hsys, length_map] at hlen
  have hsystemNonces := hcoherent.systemNonces
  rw [hsys] at hsystemNonces
  refine ⟨_, getSystemTransactions_eq_ok.mpr
    ⟨base, nonce, epoch, hbase, hnonce, hepoch, rfl⟩, ?_⟩
  refine systemFields_eq hlen hstatic hcalls (fun hne => ?_) hsystemNonces
  obtain ⟨txn, txns, rfl⟩ := exists_cons_of_ne_nil hne
  have hmem : SYSTEM_SENDER_ETH_ADDRESS ∈ extractSigners block.validatedTxns block.systemTxns := by
    rw [hsys, ← (staticValidateSystemTransaction_eq_ok (hstatic txn mem_cons_self)).1]
    exact mem_append_right _ mem_cons_self
  rw [← hsame _ hmem (mem_singleton_self _)]
  exact hnonce

/-- A proposal that starts with the generated transactions is split after them, and they pass.
In a block that passes, the transactions of the system sender come first and are the generated
ones, no other transaction calls a restricted function, and no authorization is the system
sender's. -/
theorem systemTransactions_exact (policy : EthBlockPolicy env) (header : EthBlockHeader env)
    (extending : List (EthValidatedBlock env)) (backend : StateBackend env)
    (hvalidate : header.executionChainParams.validateSystemTxs = true) :
    (∀ sys userTxns : List Recovered,
      policy.getSystemTransactions header.epoch header.seqNum (env.getEthAddress header.author)
        extending backend = .ok sys →
      (∀ txn ∈ userTxns, ∃ (lastCommit : EthBlockHeader env) (chainId : ℕ)
        (chainParams : ChainParams) (executionParams : ExecutionChainParams) (kind : PoolTxKind)
        (pooled : PoolTx),
        PoolTx.validate lastCommit chainId chainParams executionParams txn kind = .ok pooled) →
      extractSystemTransactions header (sys ++ userTxns) = .ok (sys.map systemTxn, userTxns) ∧
      ∀ block : EthValidatedBlock env, block.header = header →
        block.systemTxns = sys.map systemTxn →
        policy.validateSystemTransactionsInput block extending = .ok () ∧
        ∃ nonces nonces', policy.getAccountBaseNonces header.seqNum backend extending
            (extractSigners block.validatedTxns block.systemTxns) = .ok nonces ∧
          systemTransactionNonceCheck block.systemTxns nonces = .ok nonces') ∧
    (∀ (body : EthBlockBody env) (block : EthValidatedBlock env) (rootSeqNum : ℕ),
      block.header = header →
      validateBlockBody header body =
        .ok ⟨block.systemTxns, block.validatedTxns, block.nonceUsages, block.txnFees⟩ →
      policy.checkCoherency block extending rootSeqNum backend = .ok () →
      ∃ sys userTxns generated, recoverSigners body.transactions = .ok (sys ++ userTxns) ∧
        (∀ txn ∈ sys, txn.signer = SYSTEM_SENDER_ETH_ADDRESS) ∧
        (∀ txn ∈ userTxns, txn.signer ≠ SYSTEM_SENDER_ETH_ADDRESS) ∧
        policy.getSystemTransactions header.epoch header.seqNum
          (env.getEthAddress header.author) extending backend = .ok generated ∧
        (sys.map fun txn => txn.systemFields) = (generated.map fun txn => txn.systemFields) ∧
        (∀ txn ∈ userTxns, isRestrictedStakingContractCall txn.toTxEnvelope = false) ∧
        ∀ tx ∈ body.transactions, ∀ auths, tx.authorizationList = some auths →
          ∀ auth ∈ auths, auth.recoverAuthority ≠ some SYSTEM_SENDER_ETH_ADDRESS) := by
  refine ⟨fun sys userTxns hsys huser => generated_accepted hvalidate hsys fun txn htxn => ?_, ?_⟩
  · obtain ⟨_, _, _, _, _, _, hpool⟩ := huser txn htxn
    exact (PoolTx.validate_eq_ok hpool).notForbidden
  rintro body block rootSeqNum rfl hbody hcheck
  obtain ⟨recovered, userTxns, _, haccepted⟩ := validateBlockBody_eq_ok hbody
  have hextracted := haccepted.extracted
  unfold extractSystemTransactions at hextracted
  rw [hvalidate] at hextracted
  obtain ⟨⟨sysTxns, userTxns'⟩, htake, hextracted⟩ := bind_eq_ok.mp hextracted
  dsimp only at hextracted
  split at hextracted
  · cases hextracted
  next hforbidden =>
  obtain ⟨hsysTxns, rfl⟩ := Prod.mk.inj (Except.ok.inj hextracted)
  obtain ⟨sys, rfl, rfl, hstatic⟩ := takeSystemTransactions_eq_ok htake
  have huser : ∀ txn ∈ userTxns', isForbidden txn = false := fun txn htxn =>
    Bool.eq_false_iff.mpr (any_eq_false.mp (Bool.eq_false_iff.mpr hforbidden) txn htxn)
  obtain ⟨generated, hgenerated, hfields⟩ := accepted_generated hvalidate hsysTxns.symm hstatic hcheck
  refine ⟨sys, userTxns', generated, haccepted.recovered,
    fun txn htxn => (staticValidateSystemTransaction_eq_ok (hstatic txn htxn)).1, fun txn htxn => ?_,
    hgenerated, hfields, fun txn htxn => (Bool.or_eq_false_iff.mp (huser txn htxn)).2, ?_⟩
  · have hsender := (Bool.or_eq_false_iff.mp (huser txn htxn)).1
    simpa [isSystemSender] using hsender
  · intro tx htx auths hauths auth hauth hsystem
    rw [← recoverSigners_eq_ok haccepted.recovered] at htx
    obtain ⟨txn, htxn, rfl⟩ := mem_map.mp htx
    unfold authorizationList at hauths
    split at hauths
    next htype =>
      rcases mem_append.mp htxn with htxn | htxn
      · rw [(staticValidateSystemTransaction_eq_ok (hstatic txn htxn)).2.1] at htype
        cases htype
      have hmem : recoverAuthorizations txn ∈ block.validatedTxns := by
        rw [show block.validatedTxns = _ from haccepted.validatedTxns]
        exact mem_map_of_mem htxn
      obtain ⟨_, _, hadd⟩ := foldlM_mem_eq_ok haccepted.summary hmem
      have hrecovered : (⟨auth.toAuthorization, some SYSTEM_SENDER_ETH_ADDRESS⟩ :
          RecoveredAuthorization) ∈ (recoverAuthorizations txn).authorizations7702 := by
        unfold recoverAuthorizations
        rw [if_pos htype, Option.some.inj hauths]
        exact mem_filterMap.mpr ⟨auth, hauth, by rw [hsystem]; rfl⟩
      exact authority_ne_system hadd htype hrecovered rfl
    · cases hauths

/-- The reward of the first block's author, before a transfer. -/
theorem systemTransactions_exact_reward :
    (∃ sys, (EthBlockPolicy.new sampleEnv GENESIS_SEQ_NUM 2).getSystemTransactions 1 1 3 []
        (replayBackend []) = .ok sys ∧ sys.length = 1 ∧
      extractSystemTransactions (sampleHeader 1) (sys ++ [⟨sampleTransfer 7 0, 7⟩]) =
        .ok (sys.map systemTxn, [⟨sampleTransfer 7 0, 7⟩])) ∧
    ∃ sys userTxns generated : List Recovered,
      recoverSigners (sampleBody 1 0 [sampleTransfer 7 0]).transactions = .ok (sys ++ userTxns) ∧
      generated.length = 1 ∧
      (sys.map fun txn => txn.systemFields) = (generated.map fun txn => txn.systemFields) := by
  obtain ⟨hgenerated, haccepted⟩ := systemTransactions_exact
    (EthBlockPolicy.new sampleEnv GENESIS_SEQ_NUM 2) (sampleHeader 1) [] (replayBackend []) rfl
  obtain ⟨sys, hsys, hlen⟩ : ∃ sys, (EthBlockPolicy.new sampleEnv
      GENESIS_SEQ_NUM 2).getSystemTransactions 1 1 3 [] (replayBackend []) = .ok sys ∧
        sys.length = 1 :=
    ⟨_, eq_ok_get (by decide +kernel), by decide +kernel⟩
  constructor
  · refine ⟨sys, hsys, hlen, (hgenerated sys _ hsys fun txn htxn => ?_).1⟩
    rw [mem_singleton.mp htxn]
    exact ⟨sampleHeader 1, 20143, sampleEnv.getChainRevision 1, ⟨128 * 1024, true, true⟩,
      .forwarded 0, _, eq_ok_get (by decide +kernel)⟩
  · obtain ⟨sys', userTxns, generated, hrecovered, -, -, hgenerated', hfields, -⟩ :=
      haccepted (sampleBody 1 0 [sampleTransfer 7 0]) sampleFirst GENESIS_SEQ_NUM rfl
        (eq_ok_get (by decide +kernel)) (eq_ok_get (by decide +kernel))
    cases hsys.symm.trans hgenerated'
    exact ⟨sys', userTxns, sys, hrecovered, hlen, hfields⟩

end MonadBft
