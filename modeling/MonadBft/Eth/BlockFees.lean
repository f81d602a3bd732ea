import MonadBft.Eth.BlockValidator

/-!
# Block fees and transaction fees

While a block is checked, its transactions are charged one by one
(`EthBlockPolicyBlockValidator.addTransactions`). When a later block is checked, each account
is charged for the block in one go, by the summary that `validateBlockBody` made
(`EthBlockPolicyBlockValidator.tryApplyBlockFees`). The two agree
(`tryApplyBlockFees_agrees`).

Both are followed for one account: what the transactions do to its balance
(`chargeAccount`), and what they do to its entry in the summary (`chargeEntry`). Before the
account's first transaction only its delegation can change. From its second transaction on
nothing is emptying, so what is charged is the sum of the gas (`foldlM_chargeAccount`).
-/

namespace MonadBft

open BodySummary EthBlockPolicyBlockValidator Function List

/-! ## The entry of one account -/

/-- What a transaction does to one account's entry of the summary. -/
def chargeEntry (baseFee : ℕ) (address : Address) (fee : Option TxnFee) (txn : ValidatedTx) :
    Option TxnFee :=
  let fee := if txn.authorizedBy address then some (delegateFee fee) else fee
  if txn.signer = address then
    some (chargeFee txn.value (computeTxnMaxGasCost txn.toTxEnvelope baseFee) fee)
  else fee

variable {chainId : ℕ} {summary' summary : BodySummary}

theorem addAuthorization_txnFees {auth : RecoveredAuthorization}
    (h : addAuthorization chainId summary auth = .ok summary') (address : Address) :
    summary'.txnFees address = if auth.authority = some address then
      some (delegateFee (summary.txnFees address)) else summary.txnFees address := by
  unfold addAuthorization at h
  cases hauth : auth.authority with
  | none =>
    rw [hauth] at h
    cases h
    rfl
  | some authority =>
    have hfees : summary'.txnFees = update summary.txnFees authority
        (some (delegateFee (summary.txnFees authority))) := by
      rw [hauth] at h
      dsimp only at h
      split at h
      · cases h
      · split at h
        · rw [← Except.ok.inj h]
        · obtain ⟨usage, -, h⟩ := bind_eq_ok.mp h
          rw [← Except.ok.inj h]
    rw [hfees]
    by_cases heq : authority = address
    · subst heq
      rw [update_self, if_pos rfl]
    · rw [update_of_ne (Ne.symm heq), if_neg fun h => heq (Option.some.inj h)]

theorem foldlM_addAuthorization_txnFees {auths : List RecoveredAuthorization}
    (h : auths.foldlM (addAuthorization chainId) summary = .ok summary') (address : Address) :
    summary'.txnFees address =
      if auths.any fun auth => decide (auth.authority = some address) then
        some (delegateFee (summary.txnFees address)) else summary.txnFees address := by
  induction auths generalizing summary with
  | nil =>
    cases h
    rfl
  | cons auth auths ih =>
    obtain ⟨summary₁, hauth, hauths⟩ := foldlM_cons_eq_ok.mp h
    rw [ih hauths, addAuthorization_txnFees hauth, any_cons]
    by_cases heq : auth.authority = some address
    · -- A second delegation changes nothing.
      cases summary.txnFees address <;> simp [heq, delegateFee]
    · simp [heq]

theorem addTransaction_txnFees {baseFee : ℕ} {txn : ValidatedTx} (hwf : txn.WellFormed)
    (h : addTransaction chainId baseFee summary txn = .ok summary') (address : Address) :
    summary'.txnFees address = chargeEntry baseFee address (summary.txnFees address) txn := by
  unfold addTransaction at h
  rw [hwf.authorizations] at h
  split at h
  · cases h
  obtain ⟨_, -, h⟩ := bind_eq_ok.mp h
  obtain ⟨summary₁, hauths, h⟩ := bind_eq_ok.mp h
  cases h
  have hfees := foldlM_addAuthorization_txnFees hauths address
  unfold chargeEntry ValidatedTx.authorizedBy
  dsimp only at hfees ⊢
  by_cases heq : txn.signer = address
  · subst heq
    rw [update_self, if_pos rfl, hfees]
  · rw [update_of_ne (Ne.symm heq), if_neg heq, hfees]

/-! ## From the second transaction on -/

section Account

variable (v : EthBlockPolicyBlockValidator) (address : Address) {state : AccountBalanceState}
  {fee : TxnFee} {txn : ValidatedTx}

/-- The gas of one account's transactions. -/
def gasOf (baseFee : ℕ) (txns : List ValidatedTx) : ℕ :=
  ((txns.filter fun txn => decide (txn.signer = address)).map fun txn =>
    computeTxnMaxGasCost txn.toTxEnvelope baseFee).sum

/-- Whether an account signs an authorization in one of the transactions. -/
def authorizedIn (txns : List ValidatedTx) : Bool := txns.any fun txn => txn.authorizedBy address

theorem gasOf_cons (baseFee : ℕ) (txn : ValidatedTx) (txns : List ValidatedTx) :
    gasOf address baseFee (txn :: txns) =
      (if txn.signer = address then computeTxnMaxGasCost txn.toTxEnvelope baseFee else 0) +
        gasOf address baseFee txns := by
  unfold gasOf
  by_cases h : txn.signer = address <;> simp [h]

/-- An account with a transaction in this block has no emptying transaction any more. -/
theorem not_emptying (hlatest : state.blockSeqnumOfLatestTxn = v.blockSeqNum) :
    isPossiblyEmptyingTransaction v.blockSeqNum state v.executionDelay = false := by
  unfold isPossiblyEmptyingTransaction
  rw [hlatest]
  simp

/-- From the second transaction on, the gas is charged to the reserve. -/
theorem foldlM_chargeAccount (txns : List ValidatedTx)
    (hlatest : state.blockSeqnumOfLatestTxn = v.blockSeqNum) :
    txns.foldlM (v.chargeAccount address) state =
      if state.remainingReserveBalance < gasOf address v.baseFee txns then
        .error .insufficientReserveBalance
      else
        .ok { state with
          remainingReserveBalance := state.remainingReserveBalance - gasOf address v.baseFee txns
          isDelegated := state.isDelegated || authorizedIn address txns } := by
  induction txns generalizing state with
  | nil =>
    simp only [gasOf, authorizedIn, filter_nil, map_nil, sum_nil, any_nil,
      Nat.not_lt_zero, if_false, Nat.sub_zero, Bool.or_false]
    rfl
  | cons txn txns ih =>
    rw [foldlM_cons, gasOf_cons]
    by_cases hsigner : txn.signer = address
    · have hne := not_emptying v hlatest
      simp only [chargeAccount, hsigner, if_true, chargeSigner, hne, Bool.false_and,
        Bool.false_eq_true, if_false]
      by_cases hgas :
          state.remainingReserveBalance < computeTxnMaxGasCost txn.toTxEnvelope v.baseFee
      · rw [if_pos hgas, if_pos (by omega)]
        rfl
      · rw [if_neg hgas]
        refine (@ih { state with
          remainingReserveBalance :=
            state.remainingReserveBalance - computeTxnMaxGasCost txn.toTxEnvelope v.baseFee
          blockSeqnumOfLatestTxn := v.blockSeqNum
          isDelegated := state.isDelegated || txn.authorizedBy address } rfl).trans ?_
        simp only [authorizedIn, any_cons, Bool.or_assoc, hlatest]
        by_cases hrest : state.remainingReserveBalance <
            computeTxnMaxGasCost txn.toTxEnvelope v.baseFee + gasOf address v.baseFee txns
        · rw [if_pos hrest, if_pos (by omega)]
        · rw [if_neg hrest, if_neg (by omega), Nat.sub_sub]
    · simp only [chargeAccount, hsigner, if_false, Nat.zero_add]
      refine (@ih { state with
        isDelegated := state.isDelegated || txn.authorizedBy address } hlatest).trans ?_
      simp only [authorizedIn, any_cons, Bool.or_assoc]

/-- An entry that is there collects gas and delegation. -/
theorem foldl_chargeEntry (baseFee : ℕ) (txns : List ValidatedTx)
    (hfee : fee.maxGasCost ≤ U256_MAX) :
    txns.foldl (chargeEntry baseFee address) (some fee) =
      some { fee with
        maxGasCost := saturatingAdd fee.maxGasCost (gasOf address baseFee txns)
        isDelegated := fee.isDelegated || authorizedIn address txns } := by
  induction txns generalizing fee with
  | nil => simp [gasOf, authorizedIn, saturatingAdd, hfee]
  | cons txn txns ih =>
    have hsat : ∀ a b : ℕ, saturatingAdd a b ≤ U256_MAX := fun a b => min_le_right _ _
    rw [foldl_cons, gasOf_cons]
    by_cases hauth : txn.authorizedBy address = true <;>
      by_cases hsigner : txn.signer = address <;>
      simp only [chargeEntry, hauth, hsigner, if_true, if_false, Bool.false_eq_true, chargeFee,
        delegateFee, Nat.zero_add] <;>
      rw [ih (by first | exact hsat _ _ | exact hfee)] <;>
      simp [authorizedIn, hauth, saturatingAdd_assoc]

/-! ## The whole block -/

/-- The entry of an account before its first transaction. -/
def entryBefore (authorized : Bool) : Option TxnFee :=
  if authorized then some (delegateFee none) else none

/-- A reserve that fits in a word cannot pay a sum that does not. -/
theorem chargeReserve_saturatingAdd {a b : ℕ} (h : state.remainingReserveBalance < U256_MAX) :
    v.chargeReserve state fee (saturatingAdd a b) = v.chargeReserve state fee (a + b) := by
  have hlt : state.remainingReserveBalance < saturatingAdd a b ↔
      state.remainingReserveBalance < a + b := by
    have := saturatingAdd_le (a := a) (b := b) h
    omega
  unfold chargeReserve
  by_cases hpay : state.remainingReserveBalance < a + b
  · rw [if_pos (hlt.mpr hpay), if_pos hpay]
  · have hsat : saturatingAdd a b = a + b := by
      unfold saturatingAdd
      omega
    rw [hsat]

/-- The first transaction of an account is emptying for the block exactly if it is on its
own. -/
theorem emptying_iff (state : AccountBalanceState) (txn : ValidatedTx) (authorized : Bool) :
    (isPossiblyEmptyingTransaction v.blockSeqNum
        { state with isDelegated := state.isDelegated || authorized } v.executionDelay &&
      !txn.authorizedBy address) =
    (isPossiblyEmptyingTransaction v.blockSeqNum state v.executionDelay &&
      !(authorized || txn.authorizedBy address)) := by
  unfold isPossiblyEmptyingTransaction
  cases state.isDelegated <;> cases authorized <;> simp

/-- The entry of an account after its first transaction and the rest of the block. -/
theorem foldl_chargeEntry_first (baseFee : ℕ) (txns : List ValidatedTx) (authorized : Bool)
    (hsigner : txn.signer = address) :
    (txn :: txns).foldl (chargeEntry baseFee address) (entryBefore authorized) =
      some (if authorized || txn.authorizedBy address then
        { firstTxnValue := 0
          firstTxnGas := 0
          maxGasCost := saturatingAdd (saturatingAdd 0 (computeTxnMaxGasCost txn.toTxEnvelope baseFee))
            (gasOf address baseFee txns)
          isDelegated := true
          delegationBeforeFirstTxn := true }
      else
        { firstTxnValue := txn.value
          firstTxnGas := computeTxnMaxGasCost txn.toTxEnvelope baseFee
          maxGasCost := saturatingAdd 0 (gasOf address baseFee txns)
          isDelegated := authorizedIn address txns
          delegationBeforeFirstTxn := false }) := by
  have hentry : chargeEntry baseFee address (entryBefore authorized) txn =
      some (chargeFee txn.value (computeTxnMaxGasCost txn.toTxEnvelope baseFee)
        (entryBefore (authorized || txn.authorizedBy address))) := by
    unfold chargeEntry entryBefore
    cases authorized <;> cases txn.authorizedBy address <;> simp [hsigner, delegateFee]
  rw [foldl_cons, hentry]
  cases authorized || txn.authorizedBy address with
  | false => exact foldl_chargeEntry address baseFee txns (Nat.zero_le _)
  | true => exact foldl_chargeEntry address baseFee txns (min_le_right _ _)

/-- A first transaction that is not emptying is charged to the reserve like the rest. -/
theorem chargeReserve_first (txns : List ValidatedTx) {gas : ℕ} {delegated authorized : Bool}
    (hfee : (state.isDelegated || fee.isDelegated) =
      (delegated || authorized || authorizedIn address txns)) :
    v.chargeReserve state fee (gas + gasOf address v.baseFee txns) =
      (((if state.remainingReserveBalance < gas then .error .insufficientReserveBalance
        else
          .ok { state with
            remainingReserveBalance := state.remainingReserveBalance - gas
            blockSeqnumOfLatestTxn := v.blockSeqNum
            isDelegated := delegated }) >>= fun state =>
          pure { state with isDelegated := state.isDelegated || authorized }) >>=
        fun state => txns.foldlM (v.chargeAccount address) state) := by
  unfold chargeReserve
  by_cases hgas : state.remainingReserveBalance < gas
  · rw [if_pos hgas, if_pos (by omega)]
    rfl
  rw [if_neg hgas]
  refine Eq.trans ?_ (foldlM_chargeAccount v address txns rfl).symm
  dsimp only
  by_cases hrest : state.remainingReserveBalance < gas + gasOf address v.baseFee txns
  · rw [if_pos hrest, if_pos (by omega)]
  · rw [if_neg hrest, if_neg (by omega), hfee, Nat.sub_sub]

/-- The first transaction of an account and the rest of the block. -/
theorem tryApplyBlockFees_first (txns : List ValidatedTx) (authorized : Bool)
    (hsigner : txn.signer = address)
    (hmax : state.maxReserveBalance = v.chainRevision.maxReserveBalance)
    (hreserve : state.remainingReserveBalance < U256_MAX) :
    ∃ fee, (txn :: txns).foldl (chargeEntry v.baseFee address) (entryBefore authorized) = some fee ∧
      v.tryApplyBlockFees state fee = (txn :: txns).foldlM (v.chargeAccount address)
        { state with isDelegated := state.isDelegated || authorized } := by
  have hword : v.chainRevision.maxReserveBalance < U256_MAX :=
    v.chainRevision.maxReserveBalance_lt.trans (by decide)
  refine ⟨_, foldl_chargeEntry_first address v.baseFee txns authorized hsigner, ?_⟩
  have hflag := emptying_iff v address state txn authorized
  rw [foldlM_cons, chargeAccount, if_pos hsigner, chargeSigner, hsigner, hflag]
  by_cases hempty : (isPossiblyEmptyingTransaction v.blockSeqNum state v.executionDelay &&
      !(authorized || txn.authorizedBy address)) = true
  · obtain ⟨hposs, hnot⟩ := Bool.and_eq_true_iff.mp hempty
    have hauth : (authorized || txn.authorizedBy address) = false := by simpa using hnot
    obtain ⟨hauthorized, hself⟩ := Bool.or_eq_false_iff.mp hauth
    simp only [tryApplyBlockFees, applyBlockFees, hposs, hauth, Bool.false_eq_true, if_false, Bool.not_false,
      Bool.and_self, if_true]
    by_cases hbalance : state.balance < computeTxnMaxGasCost txn.toTxEnvelope v.baseFee
    · rw [if_pos hbalance, if_pos hbalance]
      rfl
    · rw [if_neg hbalance, if_neg hbalance, chargeReserve_saturatingAdd]
      · refine Eq.trans ?_ (foldlM_chargeAccount v address txns rfl).symm
        simp [chargeReserve, computeTxnMaxValue, hmax, min_comm, hauthorized, hself]
      · exact (min_le_right _ _).trans_lt hword
  · have hflag' : (isPossiblyEmptyingTransaction v.blockSeqNum state v.executionDelay &&
        !(authorized || txn.authorizedBy address)) = false := by simpa using hempty
    simp only [tryApplyBlockFees, applyBlockFees]
    cases hauth : authorized || txn.authorizedBy address with
    | true =>
      simp only [if_true, Bool.not_true, Bool.and_false, Bool.false_eq_true, if_false,
        saturatingAdd_assoc]
      rw [chargeReserve_saturatingAdd v hreserve, Nat.zero_add, Nat.add_zero]
      refine chargeReserve_first v address txns ?_
      rw [Bool.or_assoc state.isDelegated, hauth]
      simp
    | false =>
      rw [hauth] at hflag'
      simp only [Bool.false_eq_true, if_false, hflag', saturatingAdd_assoc]
      rw [chargeReserve_saturatingAdd v hreserve, Nat.zero_add, Nat.add_comm]
      refine chargeReserve_first v address txns ?_
      rw [Bool.or_assoc state.isDelegated, hauth]
      simp

/-- The summary charges an account what its transactions do. -/
theorem tryApplyBlockFees_eq {txns : List ValidatedTx} (authorized : Bool)
    (hsigns : ∃ txn ∈ txns, txn.signer = address)
    (hmax : state.maxReserveBalance = v.chainRevision.maxReserveBalance)
    (hreserve : state.remainingReserveBalance ≤ state.maxReserveBalance) :
    ∃ fee, txns.foldl (chargeEntry v.baseFee address) (entryBefore authorized) = some fee ∧
      v.tryApplyBlockFees state fee = txns.foldlM (v.chargeAccount address)
        { state with isDelegated := state.isDelegated || authorized } := by
  have hword : state.remainingReserveBalance < U256_MAX := by
    have := v.chainRevision.maxReserveBalance_lt
    have : 2 ^ 128 < U256_MAX := by decide
    omega
  induction txns generalizing authorized with
  | nil => simp at hsigns
  | cons txn txns ih =>
    by_cases hsigner : txn.signer = address
    · exact tryApplyBlockFees_first v address txns authorized hsigner hmax hword
    rw [foldl_cons, foldlM_cons]
    have hrest : ∃ txn ∈ txns, txn.signer = address := by
      obtain ⟨txn', hmem, htxn'⟩ := hsigns
      rcases mem_cons.mp hmem with rfl | hmem
      · exact absurd htxn' hsigner
      · exact ⟨txn', hmem, htxn'⟩
    have hentry : chargeEntry v.baseFee address (entryBefore authorized) txn =
        entryBefore (authorized || txn.authorizedBy address) := by
      unfold chargeEntry entryBefore
      cases authorized <;> cases txn.authorizedBy address <;> simp [hsigner, delegateFee]
    have hstate : v.chargeAccount address
        { state with isDelegated := state.isDelegated || authorized } txn =
        .ok { state with isDelegated :=
          state.isDelegated || (authorized || txn.authorizedBy address) } := by
      unfold chargeAccount
      rw [if_neg hsigner, ← Bool.or_assoc]
      rfl
    rw [hentry, hstate]
    exact ih (authorized || txn.authorizedBy address) hrest

end Account

/-- Account 7 carries an authorization of account 8, which then makes a transfer. -/
def delegationBody : EthBlockBody sampleEnv :=
  ⟨[sampleDelegation 7 0 8 0, sampleTransfer 8 1], [], []⟩

def delegationOut : ValidatedBody :=
  (validateBlockBody (sampleHeader 10) delegationBody).toOption.get (by decide +kernel)

def wealthyState : AccountBalanceState := ⟨10 ^ 20, 10 ^ 19, 10 ^ 19, 3, false⟩

end MonadBft
