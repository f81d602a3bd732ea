import MonadBft.Eth.Transaction
import MonadBft.Prog

/-!
# Reserve balances

Blocks are executed `executionDelay` blocks after they are agreed on, so consensus does not
know the balance of an account. It keeps a reserve for the gas of the transactions under way
(`AccountBalanceState`): a transaction is charged to the reserve, unless it is the first of
its account in a while (`isPossiblyEmptyingTransaction`), which may empty the account down to
its gas.

A block is charged transaction by transaction while it is checked
(`tryAddTransaction`), and in one go by its summary `TxnFee` when a later block is checked
(`tryApplyBlockFees`).
-/

namespace MonadBft

open Function

/-- What consensus knows of an account at a block. -/
structure AccountBalanceState where
  balance : ℕ
  remainingReserveBalance : ℕ
  maxReserveBalance : ℕ
  blockSeqnumOfLatestTxn : ℕ
  isDelegated : Bool
  deriving DecidableEq

/-- An account that does not exist. -/
def AccountBalanceState.new (maxReserveBalance : ℕ) : AccountBalanceState where
  balance := 0
  remainingReserveBalance := 0
  maxReserveBalance := maxReserveBalance
  blockSeqnumOfLatestTxn := GENESIS_SEQ_NUM
  isDelegated := false

/-- What the transactions of a block can cost one account. -/
structure TxnFee where
  firstTxnValue : ℕ
  firstTxnGas : ℕ
  /-- The gas of the transactions after the first one. -/
  maxGasCost : ℕ
  isDelegated : Bool
  delegationBeforeFirstTxn : Bool
  deriving DecidableEq

abbrev TxnFees := AddressMap TxnFee

inductive BlockPolicyBlockValidatorError where
  | accountBalanceMissing
  | insufficientBalance
  | insufficientReserveBalance
  deriving DecidableEq

/-- A transaction is emptying if its account has had no transaction in the blocks still to be
executed, and is not delegated. -/
def isPossiblyEmptyingTransaction (blockSeqNumOfCurrTxn : ℕ) (state : AccountBalanceState)
    (executionDelay : ℕ) : Bool :=
  !state.isDelegated &&
    decide (blockSeqNumOfCurrTxn - state.blockSeqnumOfLatestTxn > executionDelay - 1)

structure EthBlockPolicyBlockValidator where
  blockSeqNum : ℕ
  executionDelay : ℕ
  baseFee : ℕ
  chainRevision : ChainParams

def EthBlockHeader.validator {env : EthEnv} (header : EthBlockHeader env) (executionDelay : ℕ) :
    EthBlockPolicyBlockValidator where
  blockSeqNum := header.seqNum
  executionDelay := executionDelay
  baseFee := header.baseFee
  chainRevision := env.getChainRevision header.blockRound

namespace EthBlockPolicyBlockValidator

variable (v : EthBlockPolicyBlockValidator) {state : AccountBalanceState} {txn : ValidatedTx}
  {state' : AccountBalanceState}

/-- Charge an account for the rest of a block, from its reserve. -/
def chargeReserve (state : AccountBalanceState) (blockTxnFees : TxnFee) (blockGasCost : ℕ) :
    Except BlockPolicyBlockValidatorError AccountBalanceState :=
  if state.remainingReserveBalance < blockGasCost then .error .insufficientReserveBalance
  else
    .ok { state with
      remainingReserveBalance := state.remainingReserveBalance - blockGasCost
      blockSeqnumOfLatestTxn := v.blockSeqNum
      isDelegated := state.isDelegated || blockTxnFees.isDelegated }

/-- Charge an account for a block, given whether a transaction could be emptying. -/
def applyBlockFees (isPossiblyEmptyingTransaction : Bool) (state : AccountBalanceState)
    (blockTxnFees : TxnFee) : Except BlockPolicyBlockValidatorError AccountBalanceState :=
  let hasEmptyingTransaction :=
    isPossiblyEmptyingTransaction && !blockTxnFees.delegationBeforeFirstTxn
  if hasEmptyingTransaction then
    if state.balance < blockTxnFees.firstTxnGas then .error .insufficientBalance
    else
      let firstTxnCost := saturatingAdd blockTxnFees.firstTxnValue blockTxnFees.firstTxnGas
      let estimatedBalance := state.balance - firstTxnCost
      v.chargeReserve
        { state with
          remainingReserveBalance := min estimatedBalance v.chainRevision.maxReserveBalance
          balance := estimatedBalance }
        blockTxnFees blockTxnFees.maxGasCost
  else
    v.chargeReserve state blockTxnFees
      (saturatingAdd blockTxnFees.maxGasCost blockTxnFees.firstTxnGas)

def tryApplyBlockFees (state : AccountBalanceState) (blockTxnFees : TxnFee) :
    Except BlockPolicyBlockValidatorError AccountBalanceState :=
  v.applyBlockFees (isPossiblyEmptyingTransaction v.blockSeqNum state v.executionDelay) state
    blockTxnFees

def chargeSigner (state : AccountBalanceState) (txn : ValidatedTx) :
    Except BlockPolicyBlockValidatorError AccountBalanceState :=
  let containsSelfAuthorization := txn.authorizedBy txn.signer
  let isEmptyingTransaction :=
    isPossiblyEmptyingTransaction v.blockSeqNum state v.executionDelay &&
      !containsSelfAuthorization
  let txnMaxGas := computeTxnMaxGasCost txn.toTxEnvelope v.baseFee
  if isEmptyingTransaction then
    if state.balance < txnMaxGas then .error .insufficientBalance
    else
      let estimatedBalance := state.balance - computeTxnMaxValue txn.toTxEnvelope v.baseFee
      .ok { state with
        balance := estimatedBalance
        remainingReserveBalance := min state.maxReserveBalance estimatedBalance
        blockSeqnumOfLatestTxn := v.blockSeqNum }
  else if state.remainingReserveBalance < txnMaxGas then .error .insufficientReserveBalance
  else
    .ok { state with
      remainingReserveBalance := state.remainingReserveBalance - txnMaxGas
      blockSeqnumOfLatestTxn := v.blockSeqNum }

/-- Note that an authority is delegated, if its balance is of interest. -/
def delegate (balances : AddressMap AccountBalanceState) (auth : RecoveredAuthorization) :
    AddressMap AccountBalanceState :=
  match auth.authority with
  | none => balances
  | some authority =>
    update balances authority
      ((balances authority).map fun state => { state with isDelegated := true })

/-- Charge a transaction to its signer, then note the delegations it makes. -/
def tryAddTransaction (balances : AddressMap AccountBalanceState) (txn : ValidatedTx) :
    Except BlockPolicyBlockValidatorError (AddressMap AccountBalanceState) :=
  match balances txn.signer with
  | none => .error .accountBalanceMissing
  | some state => do
    let state ← v.chargeSigner state txn
    return txn.authorizations7702.foldl delegate
      (update balances txn.signer (some state))

def addTransactions (balances : AddressMap AccountBalanceState) (txns : List ValidatedTx) :
    Except BlockPolicyBlockValidatorError (AddressMap AccountBalanceState) :=
  txns.foldlM v.tryAddTransaction balances

/-- In the run over the transactions, none from a signer in `P` is refused. -/
def Accepts (balances : AddressMap AccountBalanceState) (txns : List ValidatedTx)
    (P : Address → Prop) : Prop :=
  ∀ pre txn post balances', txns = pre ++ txn :: post → P txn.signer →
    v.addTransactions balances pre = .ok balances' →
    ∃ balances'', v.tryAddTransaction balances' txn = .ok balances''

/-! ## One account -/

/-- What a transaction does to one account. -/
def chargeAccount (address : Address) (state : AccountBalanceState) (txn : ValidatedTx) :
    Except BlockPolicyBlockValidatorError AccountBalanceState := do
  let state ← if txn.signer = address then v.chargeSigner state txn else .ok state
  return { state with isDelegated := state.isDelegated || txn.authorizedBy address }

theorem delegate_apply (balances : AddressMap AccountBalanceState) (auth : RecoveredAuthorization)
    (address : Address) :
    delegate balances auth address = (balances address).map fun state =>
      { state with isDelegated :=
          state.isDelegated || decide (auth.authority = some address) } := by
  unfold delegate
  cases auth.authority with
  | none => simp
  | some authority =>
    by_cases h : address = authority
    · subst h
      simp
    · simp [update_of_ne h, Ne.symm h]

theorem foldl_delegate (balances : AddressMap AccountBalanceState) (address : Address)
    (auths : List RecoveredAuthorization) :
    auths.foldl delegate balances address = (balances address).map fun state =>
      { state with isDelegated :=
          state.isDelegated || auths.any fun auth => decide (auth.authority = some address) } := by
  induction auths generalizing balances with
  | nil => simp
  | cons auth auths ih =>
    rw [List.foldl_cons, ih, delegate_apply, Option.map_map]
    simp [comp_def, Bool.or_assoc]

/-- A transaction that is accepted does to each account what it does to it alone. -/
theorem tryAddTransaction_account {balances balances' : AddressMap AccountBalanceState}
    {address : Address} (h : v.tryAddTransaction balances txn = .ok balances')
    (hstate : balances address = some state) :
    ∃ state', v.chargeAccount address state txn = .ok state' ∧ balances' address = some state' := by
  unfold tryAddTransaction at h
  cases hsigner : balances txn.signer with
  | none =>
    rw [hsigner] at h
    cases h
  | some signer =>
    rw [hsigner] at h
    obtain ⟨signer', hcharge, h⟩ := bind_eq_ok.mp h
    cases h
    unfold chargeAccount
    rw [foldl_delegate]
    by_cases heq : txn.signer = address
    · subst heq
      cases hsigner.symm.trans hstate
      rw [if_pos rfl, hcharge, update_self]
      exact ⟨_, rfl, rfl⟩
    · rw [if_neg heq, update_of_ne (Ne.symm heq), hstate]
      exact ⟨_, rfl, rfl⟩

/-- Whether a transaction is accepted depends on its signer's balance. -/
theorem tryAddTransaction_signer {balances : AddressMap AccountBalanceState}
    (hstate : balances txn.signer = some state)
    (h : v.chargeAccount txn.signer state txn = .ok state') :
    ∃ balances', v.tryAddTransaction balances txn = .ok balances' := by
  unfold chargeAccount at h
  rw [if_pos rfl] at h
  obtain ⟨signer, hcharge, -⟩ := bind_eq_ok.mp h
  unfold tryAddTransaction
  rw [hstate]
  simp only [hcharge]
  exact ⟨_, rfl⟩

/-! ## Runs over transactions -/

section Runs

variable {v} {balances balances' : AddressMap AccountBalanceState} {txn : ValidatedTx}
  {txns : List ValidatedTx} {P : Address → Prop} {address : Address}

theorem Accepts.tail (h : v.Accepts balances (txn :: txns) P)
    (htxn : v.tryAddTransaction balances txn = .ok balances') : v.Accepts balances' txns P := by
  intro pre txn' post balances₁ hsplit hP hrun
  refine h (txn :: pre) txn' post balances₁ (by rw [hsplit, List.cons_append]) hP ?_
  exact foldlM_cons_eq_ok.mpr ⟨balances', htxn, hrun⟩

/-- A run that ends has refused nobody. -/
theorem Accepts.of_ok (h : v.addTransactions balances txns = .ok balances') :
    v.Accepts balances txns P := by
  intro pre txn' post balances₁ hsplit _ hrun
  subst hsplit
  obtain ⟨balances₂, hpre, hrest⟩ := foldlM_append_eq_ok.mp h
  cases hrun.symm.trans hpre
  obtain ⟨balances₃, htxn, -⟩ := foldlM_cons_eq_ok.mp hrest
  exact ⟨balances₃, htxn⟩

/-- If the others are accepted, a run ends exactly if the account can pay. -/
theorem addTransactions_of_chargeAccount (hstate : balances address = some state)
    (hothers : v.Accepts balances txns (· ≠ address))
    (h : txns.foldlM (v.chargeAccount address) state = .ok state') :
    ∃ balances', v.addTransactions balances txns = .ok balances' ∧
      balances' address = some state' := by
  induction txns generalizing balances state with
  | nil =>
    cases h
    exact ⟨balances, rfl, hstate⟩
  | cons txn txns ih =>
    obtain ⟨state₁, hcharge, hrest⟩ := foldlM_cons_eq_ok.mp h
    have htxn : ∃ balances₁, v.tryAddTransaction balances txn = .ok balances₁ := by
      by_cases hsigner : txn.signer = address
      · subst hsigner
        exact v.tryAddTransaction_signer hstate hcharge
      · exact hothers [] txn txns balances rfl hsigner rfl
    obtain ⟨balances₁, htxn⟩ := htxn
    obtain ⟨state₂, hcharge₂, hstate₁⟩ := v.tryAddTransaction_account htxn hstate
    cases hcharge.symm.trans hcharge₂
    obtain ⟨balances', hrun, hfinal⟩ := ih hstate₁ (hothers.tail htxn) hrest
    exact ⟨balances', foldlM_cons_eq_ok.mpr ⟨balances₁, htxn, hrun⟩, hfinal⟩

theorem chargeAccount_of_addTransactions (hstate : balances address = some state)
    (h : v.addTransactions balances txns = .ok balances') :
    ∃ state', txns.foldlM (v.chargeAccount address) state = .ok state' ∧
      balances' address = some state' :=
  foldlM_simulates (R := fun balances state => balances address = some state)
    (fun _ _ _ _ _ hstate htxn => v.tryAddTransaction_account htxn hstate) hstate h

/-- A run in which nobody is refused ends. -/
theorem Accepts.ok (hP : v.Accepts balances txns P) (hnot : v.Accepts balances txns fun a => ¬P a) :
    ∃ balances', v.addTransactions balances txns = .ok balances' := by
  induction txns generalizing balances with
  | nil => exact ⟨balances, rfl⟩
  | cons txn txns ih =>
    have htxn : ∃ balances₁, v.tryAddTransaction balances txn = .ok balances₁ := by
      by_cases hsigner : P txn.signer
      · exact hP [] txn txns balances rfl hsigner rfl
      · exact hnot [] txn txns balances rfl hsigner rfl
    obtain ⟨balances₁, htxn⟩ := htxn
    obtain ⟨balances', hrun⟩ := ih (hP.tail htxn) (hnot.tail htxn)
    exact ⟨balances', foldlM_cons_eq_ok.mpr ⟨balances₁, htxn, hrun⟩⟩

end Runs

end EthBlockPolicyBlockValidator

end MonadBft
