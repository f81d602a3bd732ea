import MonadBft.Eth.PoolTx

/-!
# The proposal sequencer

The pool tracks the transactions of each account by nonce (`TrackedTxList`). For a proposal the
sequencer queues, for every account, the transactions that follow the account's nonce, and takes
from the queue whose first transaction pays best until the limits are reached
(`ProposalSequencer.buildProposal`).

A transaction of one account may carry an authorization that uses a nonce of another one. Such
nonces are noted and applied when the other account's queue comes up
(`SequencerState.applyDeltas`).
-/

namespace MonadBft

open Assoc List

/-! ## Queues -/

/-- The values of the longest part from the front that `f` is defined on. -/
def mapWhile {α β : Type} (f : α → Option β) : List α → List β
  | [] => []
  | a :: l =>
    match f a with
    | none => []
    | some b => b :: mapWhile f l

/-! ## Tracked transactions -/

/-- The transactions of an account, by nonce. -/
structure TrackedTxList where
  accountNonce : ℕ
  /-- Each with the time of its insertion. -/
  txs : List (ℕ × PoolTx × ℕ)

namespace TrackedTxList

/-- The transactions with consecutive nonces from the front. -/
def takeQueued : ℕ → List (ℕ × PoolTx × ℕ) → List PoolTx
  | _, [] => []
  | accountNonce, (txNonce, tx, _) :: txs =>
    if txNonce ≠ accountNonce then [] else tx :: takeQueued (accountNonce + 1) txs

/-- The transactions that follow the account's nonce after a usage of it. -/
def getQueued (list : TrackedTxList) (pendingNonceUsage : Option NonceUsage) : List PoolTx :=
  let accountNonce := nonceAfter pendingNonceUsage list.accountNonce
  takeQueued accountNonce (list.txs.filter fun entry => decide (accountNonce ≤ entry.1))

end TrackedTxList

def PoolTx.txKindPriority (tx : PoolTx) : ℕ :=
  match tx.kind with
  | .owned priority _ => priority
  | .forwarded _ => DEFAULT_TX_PRIORITY

def PoolTx.txKindSender (tx : PoolTx) : Option NodeId :=
  match tx.kind with
  | .owned _ _ => none
  | .forwarded sender => some sender

structure OrderedTx where
  tx : PoolTx
  effectiveTipPerGas : ℕ

namespace OrderedTx

def new (tx : PoolTx) (baseFee : ℕ) : Option OrderedTx :=
  (tx.tx.effectiveTipPerGas baseFee).map fun tip => ⟨tx, tip⟩

/-- By what transactions are compared, the first number first. -/
def key (tx : OrderedTx) : List ℕ :=
  [tx.tx.txKindPriority, tx.effectiveTipPerGas, tx.tx.tx.gasLimit]

end OrderedTx

/-- The queue of an account. -/
structure OrderedTxGroup where
  tx : OrderedTx
  virtualTime : ℕ
  address : Address
  queued : List OrderedTx

/-- Queues are compared by their first transactions. Of equal ones, the earlier is greater. -/
def OrderedTxGroup.lt (group group' : OrderedTxGroup) : Bool :=
  decide (group.tx.key < group'.tx.key) ||
    (decide (group.tx.key = group'.tx.key) && decide (group'.virtualTime < group.virtualTime))

/-- An iteration for each transaction, and one for each authorization it may note. -/
def OrderedTxGroup.work (group : OrderedTxGroup) : ℕ :=
  ((group.tx :: group.queued).map fun tx => 1 + tx.tx.validRecoveredAuthorizations.length).sum

/-! ## The sequencer -/

inductive SequencerPanic where
  /-- A queue holds a transaction of another account. -/
  | groupAddress
  /-- The nonce of an account went down. -/
  | nonceDecreased
  /-- The pool is ahead of the block policy. -/
  | policyBehind
  deriving DecidableEq

structure Proposal where
  txs : List Recovered
  senderGas : List (NodeId × ℕ)
  totalGas : ℕ
  totalSize : ℕ

def Proposal.empty : Proposal := ⟨[], [], 0, 0⟩

structure ProposalSequencer where
  heap : List OrderedTxGroup
  virtualTime : ℕ

namespace ProposalSequencer

variable {env : EthEnv}

/-- Queue the transactions of an account, if there are any. -/
def addTracked (pendingNonceUsages : NonceUsageMap) (baseFee : ℕ) (sequencer : ProposalSequencer)
    (entry : Address × TrackedTxList) : Except SequencerPanic ProposalSequencer :=
  match mapWhile (OrderedTx.new · baseFee)
      (entry.2.getQueued (pendingNonceUsages entry.1)) with
  | [] => .ok sequencer
  | tx :: queued =>
    if entry.1 ≠ tx.tx.tx.signer then .error .groupAddress
    else
      .ok ⟨sequencer.heap ++ [⟨tx, sequencer.virtualTime, entry.1, queued⟩],
        sequencer.virtualTime + 1⟩

/-- Queue the tracked transactions of at most `txLimit` accounts. Which ones is up to `shuffle`. -/
def new (shuffle : List OrderedTxGroup → List OrderedTxGroup)
    (tracked : List (Address × TrackedTxList)) (extendingBlocks : List (EthValidatedBlock env))
    (baseFee txLimit : ℕ) : Except SequencerPanic ProposalSequencer := do
  let pendingNonceUsages :=
    NonceUsageMap.getNonceUsages (extendingBlocks.map fun block => block.nonceUsages)
  let sequencer ← tracked.foldlM (addTracked pendingNonceUsages baseFee) ⟨[], 0⟩
  return ⟨(shuffle sequencer.heap).take txLimit, sequencer.virtualTime⟩

def addresses (sequencer : ProposalSequencer) : List Address :=
  sequencer.heap.map fun group => group.address

/-- Put a queue back. -/
def push (sequencer : ProposalSequencer) (address : Address) (tx : OrderedTx)
    (queued : List OrderedTx) : Except SequencerPanic ProposalSequencer :=
  if address ≠ tx.tx.tx.signer then .error .groupAddress
  else
    .ok ⟨⟨tx, sequencer.virtualTime, address, queued⟩ :: sequencer.heap, sequencer.virtualTime + 1⟩

/-- Put back what follows the first transaction of a queue, if anything does. -/
def pushRest (sequencer : ProposalSequencer) (address : Address) :
    List OrderedTx → Except SequencerPanic ProposalSequencer
  | [] => .ok sequencer
  | tx :: queued => sequencer.push address tx queued

end ProposalSequencer

/-! ## Building a proposal -/

/-- A sum that fits in 64 bits and does not exceed a limit. -/
def addWithin (limit total n : ℕ) : Option ℕ :=
  if total + n ≤ U64_MAX ∧ total + n ≤ limit then some (total + n) else none

/-- A transaction of the pool as the block policy sees it. -/
def PoolTx.validated (tx : PoolTx) : ValidatedTx where
  toRecovered := tx.tx
  authorizations7702 := tx.validRecoveredAuthorizations.map fun auth =>
    ⟨auth.authorization, some auth.authority⟩

/-- What the loop of `buildProposal` changes. -/
structure SequencerState where
  sequencer : ProposalSequencer
  proposal : Proposal
  authorityPossibleNonceDeltas : List (Address × List ℕ)
  accountBalances : AddressMap AccountBalanceState

structure ProposalLimits where
  txLimit : ℕ
  proposalGasLimit : ℕ
  proposalByteLimit : ℕ

namespace SequencerState

variable (env : EthEnv)

/-- Add a transaction if the limits and the balance of its signer allow it. -/
def tryAddTxToProposal (limits : ProposalLimits) (validator : EthBlockPolicyBlockValidator)
    (accountBalances : AddressMap AccountBalanceState) (proposal : Proposal) (tx : PoolTx) :
    Option (AddressMap AccountBalanceState × Proposal) :=
  match addWithin limits.proposalGasLimit proposal.totalGas tx.tx.gasLimit,
    addWithin limits.proposalByteLimit proposal.totalSize (env.length tx.tx.toTxEnvelope) with
  | some totalGas, some totalSize =>
    match validator.tryAddTransaction accountBalances tx.validated with
    | .error _ => none
    | .ok accountBalances =>
      let senderGas :=
        match tx.txKindSender with
        | none => proposal.senderGas
        | some sender => Assoc.set proposal.senderGas sender
            ((get? proposal.senderGas sender).getD 0 + tx.tx.gasLimit)
      some (accountBalances, ⟨proposal.txs ++ [tx.tx], senderGas, totalGas, totalSize⟩)
  | _, _ => none

/-- Note the nonce an authorization may use, if its authority is of interest. -/
def noteAuthorization (accountBalances : AddressMap AccountBalanceState)
    (deltas : List (Address × List ℕ)) (auth : PoolTxRecoveredAuthorization) :
    List (Address × List ℕ) :=
  if auth.authorization.chainId ≠ 0 ∧ auth.authorization.chainId ≠ env.chainId then deltas
  else if (accountBalances auth.authority).isNone then deltas
  else
    Assoc.set deltas auth.authority
      ((get? deltas auth.authority).getD [] ++ [auth.authorization.nonce])

/-- Drop transactions until one has the nonce. -/
def skipTo (nonce : ℕ) (tx : OrderedTx) : List OrderedTx → Option (OrderedTx × List OrderedTx)
  | [] => if tx.tx.tx.nonce < nonce then none else some (tx, [])
  | next :: queued =>
    if tx.tx.tx.nonce < nonce then skipTo nonce next queued else some (tx, next :: queued)

/-- Bring a queue up to the nonces that authorizations have used. The loop goes on, or stops if
the queue has a gap. -/
def applyDeltas (state : SequencerState) (group : OrderedTxGroup) (nonces : List ℕ) :
    Except SequencerPanic (SequencerState × Bool) :=
  let newAccountNonce := (NonceUsage.possible nonces).applyToAccountNonce group.tx.tx.tx.nonce
  if newAccountNonce < group.tx.tx.tx.nonce then .error .nonceDecreased
  else
    match skipTo newAccountNonce group.tx group.queued with
    | none => .ok (state, true)
    | some (tx, queued) =>
      if tx.tx.tx.nonce ≠ newAccountNonce then .ok (state, false)
      else do
        let sequencer ← state.sequencer.push group.address tx queued
        return ({ state with sequencer := sequencer }, true)

/-- Add the first transaction of a queue, if possible. Otherwise the queue is dropped. -/
def addFirst (limits : ProposalLimits) (validator : EthBlockPolicyBlockValidator)
    (state : SequencerState) (group : OrderedTxGroup) : Except SequencerPanic SequencerState :=
  match tryAddTxToProposal env limits validator state.accountBalances state.proposal
      group.tx.tx with
  | none => .ok state
  | some (accountBalances, proposal) => do
    let sequencer ← state.sequencer.pushRest group.address group.queued
    return ⟨sequencer, proposal,
      group.tx.tx.validRecoveredAuthorizations.foldl (noteAuthorization env accountBalances)
        state.authorityPossibleNonceDeltas, accountBalances⟩

/-- One iteration, for the queue that was taken from the heap. -/
def step (limits : ProposalLimits) (validator : EthBlockPolicyBlockValidator)
    (state : SequencerState) (group : OrderedTxGroup) :
    Except SequencerPanic (SequencerState × Bool) :=
  match get? state.authorityPossibleNonceDeltas group.address with
  | some nonces =>
    let deltas := Assoc.remove state.authorityPossibleNonceDeltas group.address
    applyDeltas { state with authorityPossibleNonceDeltas := deltas } group nonces
  | none => do
    let state ← addFirst env limits validator state group
    return (state, true)

def run (limits : ProposalLimits) (validator : EthBlockPolicyBlockValidator) :
    ℕ → SequencerState → Except SequencerPanic Proposal
  | 0, state => .ok state.proposal
  | fuel + 1, state =>
    if state.proposal.txs.length < limits.txLimit then
      match popMax OrderedTxGroup.lt state.sequencer.heap with
      | none => .ok state.proposal
      | some (group, heap) => do
        let (state, goesOn) ← step env limits validator
          { state with sequencer := ⟨heap, state.sequencer.virtualTime⟩ } group
        if goesOn then run limits validator fuel state else return state.proposal
    else .ok state.proposal

def work (state : SequencerState) : ℕ :=
  (state.sequencer.heap.map OrderedTxGroup.work).sum + state.authorityPossibleNonceDeltas.length

/-! ### The iterations end -/

section Work

variable {env} {limits : ProposalLimits} {validator : EthBlockPolicyBlockValidator}
  {state state' : SequencerState} {group : OrderedTxGroup} {goesOn : Bool}

theorem work_push {sequencer sequencer' : ProposalSequencer} {address : Address} {tx : OrderedTx}
    {queued : List OrderedTx} (h : sequencer.push address tx queued = .ok sequencer') :
    (sequencer'.heap.map OrderedTxGroup.work).sum =
      ((tx :: queued).map fun tx => 1 + tx.tx.validRecoveredAuthorizations.length).sum +
        (sequencer.heap.map OrderedTxGroup.work).sum := by
  unfold ProposalSequencer.push at h
  split at h
  · cases h
  · rw [← Except.ok.inj h, map_cons, sum_cons]
    rfl

/-- What is left of a queue is a part of it. -/
theorem skipTo_suffix {nonce : ℕ} {tx tx' : OrderedTx} {queued queued' : List OrderedTx}
    (h : skipTo nonce tx queued = some (tx', queued')) : (tx' :: queued') <:+ (tx :: queued) := by
  fun_induction skipTo nonce tx queued with
  | case1 => cases h
  | case2 =>
    cases h
    exact suffix_rfl
  | case3 tx _ _ _ ih => exact (ih h).trans (suffix_cons tx _)
  | case4 =>
    cases h
    exact suffix_rfl

theorem length_noteAuthorization (accountBalances : AddressMap AccountBalanceState)
    (deltas : List (Address × List ℕ)) (auth : PoolTxRecoveredAuthorization) :
    (noteAuthorization env accountBalances deltas auth).length ≤ deltas.length + 1 := by
  unfold noteAuthorization
  split
  · omega
  · split
    · omega
    · exact Nat.succ_le_succ (length_filter_le _ _)

theorem length_foldl_noteAuthorization (accountBalances : AddressMap AccountBalanceState)
    (auths : List PoolTxRecoveredAuthorization) (deltas : List (Address × List ℕ)) :
    (auths.foldl (noteAuthorization env accountBalances) deltas).length ≤
      deltas.length + auths.length := by
  induction auths generalizing deltas with
  | nil => exact le_rfl
  | cons auth auths ih =>
    have hone := @length_noteAuthorization env accountBalances deltas auth
    have hrest := ih (noteAuthorization env accountBalances deltas auth)
    rw [foldl_cons, length_cons]
    omega

theorem work_applyDeltas {nonces : List ℕ}
    (h : applyDeltas state group nonces = .ok (state', goesOn)) :
    state'.work ≤ group.work + state.work := by
  unfold applyDeltas at h
  dsimp only at h
  split at h
  · cases h
  split at h
  · cases h
    exact Nat.le_add_left _ _
  next tx queued hskip =>
    split at h
    · cases h
      exact Nat.le_add_left _ _
    obtain ⟨sequencer, hpush, h⟩ := bind_eq_ok.mp h
    cases h
    have hsuffix : ((tx :: queued).map fun tx =>
        1 + tx.tx.validRecoveredAuthorizations.length).sum ≤ group.work :=
      ((skipTo_suffix hskip).sublist.map _).sum_le_sum fun _ _ => Nat.zero_le _
    unfold work
    rw [work_push hpush]
    dsimp only
    omega

theorem work_addFirst (h : addFirst env limits validator state group = .ok state') :
    state'.work < group.work + state.work := by
  have hgroup : group.work = 1 + group.tx.tx.validRecoveredAuthorizations.length +
      (group.queued.map fun tx => 1 + tx.tx.validRecoveredAuthorizations.length).sum := by
    unfold OrderedTxGroup.work
    rw [map_cons, sum_cons]
  unfold addFirst at h
  split at h
  · cases h
    omega
  next accountBalances proposal _ =>
    obtain ⟨sequencer, hsequencer, h⟩ := bind_eq_ok.mp h
    cases h
    have hheap : (sequencer.heap.map OrderedTxGroup.work).sum =
        (group.queued.map fun tx => 1 + tx.tx.validRecoveredAuthorizations.length).sum +
          (state.sequencer.heap.map OrderedTxGroup.work).sum := by
      cases hqueued : group.queued with
      | nil =>
        rw [hqueued] at hsequencer
        rw [← Except.ok.inj hsequencer, map_nil, sum_nil, Nat.zero_add]
      | cons tx queued =>
        rw [hqueued] at hsequencer
        exact work_push hsequencer
    have hdeltas := @length_foldl_noteAuthorization env accountBalances
      group.tx.tx.validRecoveredAuthorizations state.authorityPossibleNonceDeltas
    unfold work
    dsimp only
    omega

/-- Every iteration takes something off. -/
theorem work_step (h : step env limits validator state group = .ok (state', goesOn)) :
    state'.work < group.work + state.work := by
  unfold step at h
  split at h
  next nonces hnonces =>
    have hremove : (Assoc.remove state.authorityPossibleNonceDeltas group.address).length <
        state.authorityPossibleNonceDeltas.length := by
      refine length_filter_lt_length_iff_exists.mpr
        ⟨_, mem_of_get? hnonces, by simp⟩
    have := work_applyDeltas h
    unfold work at this ⊢
    dsimp only at this
    omega
  · obtain ⟨state₁, hadd, h⟩ := bind_eq_ok.mp h
    cases h
    exact work_addFirst hadd

theorem work_pop {rest : List OrderedTxGroup}
    (h : popMax OrderedTxGroup.lt state.sequencer.heap = some (group, rest)) :
    state.work = group.work +
      work { state with sequencer := ⟨rest, state.sequencer.virtualTime⟩ } := by
  have hsum := ((popMax_perm h).map OrderedTxGroup.work).sum_eq
  rw [map_cons, sum_cons] at hsum
  unfold work
  dsimp only
  omega

/-- The loop has ended by itself after that many iterations. -/
theorem run_of_work_le {fuel : ℕ} (h : state.work ≤ fuel) :
    run env limits validator (fuel + 1) state = run env limits validator fuel state := by
  induction fuel generalizing state with
  | zero =>
    have hheap : popMax OrderedTxGroup.lt state.sequencer.heap = none := by
      cases hpop : popMax OrderedTxGroup.lt state.sequencer.heap with
      | none => rfl
      | some top =>
        have hwork := work_pop hpop
        have hpos : 0 < top.1.work := by
          unfold OrderedTxGroup.work
          rw [map_cons, sum_cons]
          omega
        omega
    unfold run
    rw [hheap]
    split <;> rfl
  | succ fuel ih =>
    rw [run, run]
    split
    · cases hpop : popMax OrderedTxGroup.lt state.sequencer.heap with
      | none => rfl
      | some top =>
        obtain ⟨group, rest⟩ := top
        have hwork := work_pop hpop
        dsimp only
        cases hstep : step env limits validator
            { state with sequencer := ⟨rest, state.sequencer.virtualTime⟩ } group with
        | error panic => rfl
        | ok result =>
          have hless := work_step hstep
          dsimp only [bind, Except.bind]
          rw [ih (by omega)]
    · rfl

end Work

end SequencerState

def ProposalSequencer.buildProposal (env : EthEnv) (sequencer : ProposalSequencer)
    (limits : ProposalLimits) (accountBalances : AddressMap AccountBalanceState)
    (validator : EthBlockPolicyBlockValidator) : Except SequencerPanic Proposal :=
  let state : SequencerState := ⟨sequencer, .empty, [], accountBalances⟩
  state.run env limits validator state.work

/-- Why no transactions could be sequenced. -/
inductive SequencingFailure where
  | policy (failure : PolicyFailure)
  | panic (panic : SequencerPanic)
  deriving DecidableEq

def sequenceUserTransactions {env : EthEnv}
    (shuffle : List OrderedTxGroup → List OrderedTxGroup) (lastCommit : Option ℕ)
    (chainRevision : ChainParams) (tracked : List (Address × TrackedTxList))
    (proposedSeqNum baseFee : ℕ) (limits : ProposalLimits)
    (extendingBlocks : List (EthValidatedBlock env)) (policy : EthBlockPolicy env)
    (backend : StateBackend env) : Except SequencingFailure Proposal :=
  match lastCommit with
  | none => .ok .empty
  | some lastCommitSeqNum =>
    if policy.lastCommit < lastCommitSeqNum then .error (.panic .policyBehind)
    else if lastCommitSeqNum ≠ policy.lastCommit then .ok .empty
    else if limits.txLimit = 0 then .ok .empty
    else do
      let sequencer ← (ProposalSequencer.new shuffle tracked extendingBlocks baseFee
        limits.txLimit).mapError .panic
      if sequencer.heap.isEmpty then return .empty
      else
        let accountBalances ← (policy.computeAccountBaseBalances proposedSeqNum backend
          (some extendingBlocks) sequencer.addresses).mapError .policy
        (sequencer.buildProposal env limits accountBalances
          ⟨proposedSeqNum, policy.executionDelay, baseFee, chainRevision⟩).mapError .panic

end MonadBft
