import MonadBft.Eth.Sequencer
import MonadBft.IndexMap

/-!
# The transactions of the pool

`TrackedTxMap` keeps the transactions of every account by nonce, a priority of every account by
which accounts are evicted, and the number and size of all transactions, which are limited.
Each operation reports what it does to the pool in an event for every transaction
(`EthTxPoolEventTracker`); later events of one call replace earlier ones.

The code logs an error where its own bookkeeping is inconsistent and goes on, and panics where
the clock overflows. Here an operation stops there, with the arm it has come to (`PoolArm`).
-/

namespace MonadBft

open Assoc

/-- What the pool uses of the machine and of the transaction format. -/
structure PoolEnv extends EthEnv where
  txHash : TxEnvelope → TxHash
  /-- The one chain parameter of a round that the pool only compares. -/
  getVotePace : ℕ → ℕ
  /-- The last instant that the clock can hold. -/
  maxInstant : ℕ

/-- Arms that the code takes to be out of reach. -/
inductive PoolArm where
  /-- A priority is updated for an account that is not tracked. -/
  | updateMissing
  /-- The limits are exceeded and there is no account to evict. -/
  | noEvictionAddress
  /-- The account to evict is not tracked. -/
  | removalMissing
  | emptyTxList
  | txsUnderflow
  | bytesUnderflow
  /-- An index of the priorities has an account that the other one lacks. -/
  | staleNotSorted
  | evictionNotByAddress
  | removeNotByAddress
  | removeNotSorted
  /-- The time at which a transaction expires cannot be represented. -/
  | timeOverflow
  deriving DecidableEq

variable (env : PoolEnv)

namespace PoolTx

def hash (tx : PoolTx) : TxHash := env.txHash tx.tx.toTxEnvelope

/-- The size that counts against the limits. -/
def eip2718EncodedLength (tx : PoolTx) : ℕ := env.eip2718EncodedLength tx.tx.toTxEnvelope

def isOwned (tx : PoolTx) : Bool :=
  match tx.kind with
  | .owned _ _ => true
  | .forwarded _ => false

/-- Whether a transaction replaces another one with its nonce. A missing priority fee is below
every other. -/
def hasHigherPriority (tx other : PoolTx) : Bool :=
  if tx.txKindPriority ≠ other.txKindPriority then
    decide (other.txKindPriority ≤ tx.txKindPriority)
  else
    decide (other.tx.maxFeePerGas < tx.tx.maxFeePerGas) &&
      match tx.tx.maxPriorityFeePerGas, other.tx.maxPriorityFeePerGas with
      | _, none => true
      | none, some _ => false
      | some fee, some otherFee => decide (otherFee ≤ fee)

end PoolTx

/-! ## Events -/

inductive EthTxPoolEvictReason where
  | expired
  deriving DecidableEq

inductive EthTxPoolEventType where
  | insert (address : Address) (owned : Bool) (tx : TxEnvelope)
  | commit
  | drop (reason : EthTxPoolDropReason)
  | evict (reason : EthTxPoolEvictReason)
  deriving DecidableEq

/-- The events of one call, by transaction, and the time of the call. -/
structure EthTxPoolEventTracker where
  now : ℕ
  events : List (TxHash × EthTxPoolEventType)

namespace EthTxPoolEventTracker

variable (tracker : EthTxPoolEventTracker)

/-- A later event of a transaction replaces an earlier one. -/
def emit (txHash : TxHash) (event : EthTxPoolEventType) : EthTxPoolEventTracker :=
  { tracker with events := Assoc.set tracker.events txHash event }

def insert (tx : Recovered) (owned : Bool) : EthTxPoolEventTracker :=
  tracker.emit (env.txHash tx.toTxEnvelope) (.insert tx.signer owned tx.toTxEnvelope)

def drop (txHash : TxHash) (reason : EthTxPoolDropReason) : EthTxPoolEventTracker :=
  tracker.emit txHash (.drop reason)

def replace (oldTxHash : TxHash) (newTx : Recovered) (newOwned : Bool) : EthTxPoolEventTracker :=
  (tracker.drop oldTxHash (.replacedByHigherPriority (env.txHash newTx.toTxEnvelope))).insert env
    newTx newOwned

def dropAll (txs : List Recovered) (reason : EthTxPoolDropReason) : EthTxPoolEventTracker :=
  txs.foldl (fun tracker tx => tracker.drop (env.txHash tx.toTxEnvelope) reason) tracker

def trackedCommit (txHashes : List TxHash) : EthTxPoolEventTracker :=
  txHashes.foldl (fun tracker txHash => tracker.emit txHash .commit) tracker

def trackedEvictExpired (txHashes : List TxHash) : EthTxPoolEventTracker :=
  txHashes.foldl (fun tracker txHash => tracker.emit txHash (.evict .expired)) tracker

end EthTxPoolEventTracker

/-! ## Limits -/

structure TrackedTxLimitsConfig where
  maxAddresses : ℕ
  maxTxs : ℕ
  maxEip2718Bytes : ℕ
  softEvictAddressesWatermark : ℕ
  softTxExpiry : ℕ
  hardTxExpiry : ℕ

structure TrackedTxLimits where
  config : TrackedTxLimitsConfig
  txs : ℕ
  eip2718Bytes : ℕ

namespace TrackedTxLimits

variable (limits : TrackedTxLimits)

def new (config : TrackedTxLimitsConfig) : TrackedTxLimits := ⟨config, 0, 0⟩

/-- The watermark for addresses is compared with the number of transactions. -/
def expiryDurationDuringEvict : ℕ :=
  if limits.txs < limits.config.softEvictAddressesWatermark then limits.config.hardTxExpiry
  else limits.config.softTxExpiry

def expiryDurationDuringInsert : ℕ := limits.config.hardTxExpiry

def isExceedingLimits (addresses : ℕ) : Bool :=
  decide (limits.config.maxAddresses < addresses) || decide (limits.config.maxTxs < limits.txs) ||
    decide (limits.config.maxEip2718Bytes < limits.eip2718Bytes)

def addTx (tx : PoolTx) : TrackedTxLimits :=
  { limits with txs := limits.txs + 1
                eip2718Bytes := limits.eip2718Bytes + tx.eip2718EncodedLength env }

def removeTx (tx : PoolTx) : Except PoolArm TrackedTxLimits :=
  if limits.txs < 1 then .error .txsUnderflow
  else if limits.eip2718Bytes < tx.eip2718EncodedLength env then .error .bytesUnderflow
  else
    .ok { limits with txs := limits.txs - 1
                      eip2718Bytes := limits.eip2718Bytes - tx.eip2718EncodedLength env }

def removeTxs (txs : List PoolTx) : Except PoolArm TrackedTxLimits :=
  txs.foldlM (fun limits tx => limits.removeTx env tx) limits

def reset : TrackedTxLimits := { limits with txs := 0, eip2718Bytes := 0 }

end TrackedTxLimits

/-! ## Priorities -/

/-- Accounts with a nonce gap go first, then those with the lowest tips. -/
structure Priority where
  nonceGap : ℕ
  /-- Seven numbers. -/
  tips : List ℕ
  deriving DecidableEq

/-- The gap before the first transaction, and the tips of the first seven that are ready, from
the greatest number down. -/
def TrackedTxList.computePriority (list : TrackedTxList) : Priority where
  nonceGap :=
    match list.txs with
    | [] => U64_MAX
    | (txNonce, _) :: _ => if list.accountNonce ≤ txNonce then txNonce - list.accountNonce else U64_MAX
  tips :=
    let tips := ((list.getQueued none).take 7).map fun tx =>
      U64_MAX - min ((tx.tx.effectiveTipPerGas MIN_BASE_FEE).getD 0) U64_MAX
    tips ++ List.replicate (7 - tips.length) U64_MAX

/-- The priority of every account with the time it was first set, by account and in order. -/
structure PriorityMap where
  byAddress : List (Address × Priority × ℕ)
  sorted : List (Priority × ℕ × Address)

namespace PriorityMap

variable (map : PriorityMap)

def empty : PriorityMap := ⟨[], []⟩

/-- By what entries are compared, the first number first. -/
def sortKey (e : Priority × ℕ × Address) : List ℕ := e.1.nonceGap :: e.1.tips ++ [e.2.1, e.2.2]

def sortedLt (e e' : Priority × ℕ × Address) : Bool := decide (sortKey e < sortKey e')

/-- The order has an entry once. -/
def insertSorted (e : Priority × ℕ × Address) : List (Priority × ℕ × Address) :=
  if e ∈ map.sorted then map.sorted else e :: map.sorted

/-- An account keeps the time of its first priority. -/
def updatePriority (now : ℕ) (address : Address) (txList : TrackedTxList) :
    Except PoolArm PriorityMap := do
  let priority := txList.computePriority
  match get? map.byAddress address with
  | some (stalePriority, time) =>
    if (stalePriority, time, address) ∉ map.sorted then .error .staleNotSorted
    else
      let map : PriorityMap := ⟨Assoc.set map.byAddress address (priority, time),
        map.sorted.erase (stalePriority, time, address)⟩
      .ok ⟨map.byAddress, map.insertSorted (priority, time, address)⟩
  | none =>
    .ok ⟨Assoc.set map.byAddress address (priority, now), map.insertSorted (priority, now, address)⟩

/-- The account that is last in order, if there is one. -/
def popEvictionAddress : Except PoolArm (Option (Address × PriorityMap)) :=
  match popMax sortedLt map.sorted with
  | none => .ok none
  | some ((_, _, evictionAddress), sorted) =>
    match get? map.byAddress evictionAddress with
    | none => .error .evictionNotByAddress
    | some _ => .ok (some (evictionAddress, ⟨Assoc.remove map.byAddress evictionAddress, sorted⟩))

def remove (address : Address) : Except PoolArm PriorityMap :=
  match get? map.byAddress address with
  | none => .error .removeNotByAddress
  | some (priority, time) =>
    if (priority, time, address) ∉ map.sorted then .error .removeNotSorted
    else .ok ⟨Assoc.remove map.byAddress address, map.sorted.erase (priority, time, address)⟩

end PriorityMap

/-! ## Lists -/

def txExpired (txInsert expiry now : ℕ) : Except PoolArm Bool :=
  if env.maxInstant < txInsert + expiry then .error .timeOverflow
  else .ok (decide (txInsert + expiry < now))

/-- An account's list on the way through a call, with the limits and the events. -/
structure ListUpdate where
  list : TrackedTxList
  limits : TrackedTxLimits
  tracker : EthTxPoolEventTracker
  inserted : Bool

namespace TrackedTxList

def poolTxs (list : TrackedTxList) : List PoolTx := list.txs.map fun e => e.2.1

def tryInsertTx (acc : ListUpdate) (tx : PoolTx) : Except PoolArm ListUpdate :=
  let tracker := acc.tracker
  if tx.tx.nonce < acc.list.accountNonce then
    .ok { acc with tracker := tracker.drop (tx.hash env) .nonceTooLow }
  else
    let list := { acc.list with txs := Assoc.insert acc.list.txs tx.tx.nonce (tx, tracker.now) }
    match get? acc.list.txs tx.tx.nonce with
    | none =>
      .ok { list, limits := acc.limits.addTx env tx, tracker := tracker.insert env tx.tx tx.isOwned
            inserted := true }
    | some (existingTx, existingTxInsertTime) => do
      let expired ← txExpired env existingTxInsertTime acc.limits.expiryDurationDuringInsert
        tracker.now
      if ¬ expired ∧ ¬ tx.hasHigherPriority existingTx then
        .ok { acc with tracker := tracker.drop (tx.hash env) .existingHigherPriority }
      else do
        let limits ← (acc.limits.addTx env tx).removeTx env existingTx
        .ok { list, limits, tracker := tracker.replace env (existingTx.hash env) tx.tx tx.isOwned
              inserted := true }

def tryInsertAll (acc : ListUpdate) (txs : List PoolTx) : Except PoolArm ListUpdate :=
  txs.foldlM (tryInsertTx env) acc

/-- The nonce of the account goes on. What is below it has been committed. None if no
transaction is left. -/
def updateCommittedNonceUsage (list : TrackedTxList) (limits : TrackedTxLimits)
    (tracker : EthTxPoolEventTracker) (nonceUsage : NonceUsage) :
    Except PoolArm (Option TrackedTxList × TrackedTxLimits × EthTxPoolEventTracker) :=
  let accountNonce := nonceUsage.applyToAccountNonce list.accountNonce
  match list.txs with
  | [] => .error .emptyTxList
  | (lowestNonce, _) :: _ =>
    if accountNonce ≤ lowestNonce then .ok (some { list with accountNonce }, limits, tracker)
    else do
      let committed := list.txs.filter fun e => decide (e.1 < accountNonce)
      let remaining := list.txs.filter fun e => decide (accountNonce ≤ e.1)
      let limits ← limits.removeTxs env (committed.map fun e => e.2.1)
      let tracker := tracker.trackedCommit (committed.map fun e => e.2.1.hash env)
      .ok (if remaining = [] then none else some ⟨accountNonce, remaining⟩, limits, tracker)

/-- The transactions that have expired, and the others. -/
def splitExpired (txExpiry now : ℕ) :
    List (ℕ × PoolTx × ℕ) → Except PoolArm (List (ℕ × PoolTx × ℕ) × List (ℕ × PoolTx × ℕ))
  | [] => .ok ([], [])
  | e :: txs => do
    let expired ← txExpired env e.2.2 txExpiry now
    let (removed, kept) ← splitExpired txExpiry now txs
    .ok (if expired then (e :: removed, kept) else (removed, e :: kept))

/-- None if no transaction is left. -/
def evictExpiredTxs (list : TrackedTxList) (limits : TrackedTxLimits)
    (tracker : EthTxPoolEventTracker) (txExpiry now : ℕ) :
    Except PoolArm (Option TrackedTxList × TrackedTxLimits × EthTxPoolEventTracker) := do
  let (removed, kept) ← splitExpired env txExpiry now list.txs
  let limits ← limits.removeTxs env (removed.map fun e => e.2.1)
  let tracker := tracker.trackedEvictExpired (removed.map fun e => e.2.1.hash env)
  .ok (if kept = [] then none else some { list with txs := kept }, limits, tracker)

/-- Drop a transaction that is no longer well formed. -/
def staticValidateTx (chainId : ℕ) (chainParams : ChainParams)
    (executionParams : ExecutionChainParams) (acc : ListUpdate) (e : ℕ × PoolTx × ℕ) :
    Except PoolArm ListUpdate :=
  match staticValidateTransaction e.2.1.tx.toTxEnvelope chainId chainParams executionParams with
  | .ok () => .ok { acc with list := { acc.list with txs := acc.list.txs ++ [e] } }
  | .error error => do
    let limits ← acc.limits.removeTx env e.2.1
    .ok { acc with limits, tracker := acc.tracker.drop (e.2.1.hash env) (.notWellFormed error) }

/-- None if no transaction is left. -/
def staticValidateAllTxs (list : TrackedTxList) (limits : TrackedTxLimits)
    (tracker : EthTxPoolEventTracker) (chainId : ℕ) (chainParams : ChainParams)
    (executionParams : ExecutionChainParams) :
    Except PoolArm (Option TrackedTxList × TrackedTxLimits × EthTxPoolEventTracker) := do
  let acc ← list.txs.foldlM (staticValidateTx env chainId chainParams executionParams)
    ⟨⟨list.accountNonce, []⟩, limits, tracker, false⟩
  .ok (if acc.list.txs = [] then none else some acc.list, acc.limits, acc.tracker)

end TrackedTxList

/-! ## The map -/

structure TrackedTxMap where
  txs : List (Address × TrackedTxList)
  priority : PriorityMap
  limits : TrackedTxLimits

namespace TrackedTxMap

variable (map : TrackedTxMap)

def new (limitsConfig : TrackedTxLimitsConfig) : TrackedTxMap := ⟨[], .empty, .new limitsConfig⟩

def iterTxs : List PoolTx := map.txs.flatMap fun e => e.2.poolTxs

/-- The priorities after the list of an account has changed. -/
def updatePriority (now : ℕ) (address : Address) : Except PoolArm PriorityMap :=
  match get? map.txs address with
  | none => .error .updateMissing
  | some txList => map.priority.updatePriority now address txList

theorem length_of_popEvictionAddress {map priority : PriorityMap} {address : Address}
    (h : map.popEvictionAddress = .ok (some (address, priority))) :
    map.sorted.length = priority.sorted.length + 1 := by
  unfold PriorityMap.popEvictionAddress at h
  split at h
  · cases h
  next hpop =>
    split at h
    · cases h
    · cases h
      simpa using (popMax_perm hpop).length_eq

/-- Evict whole accounts until the limits hold. -/
def evictWhileExceeding (map : TrackedTxMap) (tracker : EthTxPoolEventTracker) :
    Except PoolArm (TrackedTxMap × EthTxPoolEventTracker) :=
  if map.limits.isExceedingLimits map.txs.length then
    match _h : map.priority.popEvictionAddress with
    | .error arm => .error arm
    | .ok none => .error .noEvictionAddress
    | .ok (some (removalAddress, priority)) =>
      match get? map.txs removalAddress with
      | none => .error .removalMissing
      | some txList => do
        let limits ← map.limits.removeTxs env txList.poolTxs
        evictWhileExceeding
          { txs := IndexMap.swapRemove map.txs removalAddress, priority, limits }
          (tracker.dropAll env (txList.poolTxs.map PoolTx.tx) .poolFull)
  else .ok (map, tracker)
termination_by map.priority.sorted.length
decreasing_by
  have := length_of_popEvictionAddress _h
  omega

/-- Insert transactions of an account, and evict accounts if that exceeds the limits. -/
def tryInsertTxs (tracker : EthTxPoolEventTracker) (address : Address) (txs : List PoolTx)
    (accountNonce : ℕ) : Except PoolArm (TrackedTxMap × EthTxPoolEventTracker) := do
  let txList := (get? map.txs address).getD ⟨accountNonce, []⟩
  let acc ← TrackedTxList.tryInsertAll env ⟨txList, map.limits, tracker, false⟩ txs
  let entries :=
    match get? map.txs address with
    | some _ => IndexMap.replace map.txs address acc.list
    -- a new list is kept only if it is not empty
    | none => if acc.list.txs = [] then map.txs else map.txs ++ [(address, acc.list)]
  let map : TrackedTxMap := { map with txs := entries, limits := acc.limits }
  if ¬ acc.inserted then .ok (map, acc.tracker)
  else do
    let priority ← map.updatePriority acc.tracker.now address
    evictWhileExceeding env { map with priority } acc.tracker

/-- The list of an account is changed, or removed if there is none left. -/
def withList (address : Address) (txList : Option TrackedTxList) (limits : TrackedTxLimits)
    (now : ℕ) : Except PoolArm TrackedTxMap :=
  match txList with
  | some txList => do
    let map : TrackedTxMap := { map with txs := IndexMap.replace map.txs address txList, limits }
    let priority ← map.updatePriority now address
    .ok { map with priority }
  | none => do
    let priority ← map.priority.remove address
    .ok { txs := IndexMap.swapRemove map.txs address, priority, limits }

def updateCommittedNonceUsage (state : TrackedTxMap × EthTxPoolEventTracker)
    (usage : Address × NonceUsage) : Except PoolArm (TrackedTxMap × EthTxPoolEventTracker) :=
  match get? state.1.txs usage.1 with
  | none => .ok state
  | some txList => do
    let (txList, limits, tracker) ← txList.updateCommittedNonceUsage env state.1.limits state.2
      usage.2
    let map ← state.1.withList usage.1 txList limits tracker.now
    .ok (map, tracker)

def updateCommittedNonceUsages (tracker : EthTxPoolEventTracker)
    (nonceUsages : List (Address × NonceUsage)) :
    Except PoolArm (TrackedTxMap × EthTxPoolEventTracker) :=
  nonceUsages.foldlM (updateCommittedNonceUsage env) (map, tracker)

/-- The loop over the entries from an index on. A removed entry is replaced by the last one,
which is looked at next. The clock is read for every account. -/
def evictExpiredFrom (txExpiry : ℕ) (clock : Address → ℕ) (map : TrackedTxMap)
    (tracker : EthTxPoolEventTracker) (idx : ℕ) :
    Except PoolArm (TrackedTxMap × EthTxPoolEventTracker) :=
  match _h : map.txs[idx]? with
  | none => .ok (map, tracker)
  | some (address, txList) => do
    let (txList, limits, tracker) ← txList.evictExpiredTxs env map.limits tracker txExpiry
      (clock address)
    match txList with
    | none => do
      let priority ← map.priority.remove address
      evictExpiredFrom txExpiry clock
        { txs := IndexMap.swapRemoveIndex map.txs idx, priority, limits } tracker idx
    | some txList => do
      let entries := map.txs.set idx (address, txList)
      let priority ← updatePriority { map with txs := entries, limits } tracker.now address
      evictExpiredFrom txExpiry clock { txs := entries, priority, limits } tracker (idx + 1)
termination_by map.txs.length - idx
decreasing_by
  · have hi := (List.getElem?_eq_some_iff.mp _h).1
    have := (IndexMap.perm_swapRemoveIndex _h).length_eq
    simp only [List.length_cons] at this ⊢
    omega
  · have hi := (List.getElem?_eq_some_iff.mp _h).1
    simp only [List.length_set]
    omega

def evictExpiredTxs (tracker : EthTxPoolEventTracker) (clock : Address → ℕ) :
    Except PoolArm (TrackedTxMap × EthTxPoolEventTracker) :=
  evictExpiredFrom env map.limits.expiryDurationDuringEvict clock map tracker 0

/-- Retain an account if a transaction is left. -/
def staticValidateEntry (chainId : ℕ) (chainParams : ChainParams)
    (executionParams : ExecutionChainParams) (state : TrackedTxMap × EthTxPoolEventTracker)
    (entry : Address × TrackedTxList) : Except PoolArm (TrackedTxMap × EthTxPoolEventTracker) := do
  let (txList, limits, tracker) ← entry.2.staticValidateAllTxs env state.1.limits state.2 chainId
    chainParams executionParams
  match txList with
  | some txList => .ok ({ state.1 with txs := state.1.txs ++ [(entry.1, txList)], limits }, tracker)
  | none => do
    let priority ← state.1.priority.remove entry.1
    .ok ({ state.1 with priority, limits }, tracker)

def updatePriorityOf (now : ℕ) (map : TrackedTxMap) (address : Address) :
    Except PoolArm TrackedTxMap := do
  let priority ← map.updatePriority now address
  .ok { map with priority }

def staticValidateAllTxs (tracker : EthTxPoolEventTracker) (chainId : ℕ) (chainParams : ChainParams)
    (executionParams : ExecutionChainParams) :
    Except PoolArm (TrackedTxMap × EthTxPoolEventTracker) := do
  let (map, tracker) ← map.txs.foldlM (staticValidateEntry env chainId chainParams executionParams)
    ({ map with txs := [] }, tracker)
  let map ← (map.txs.map Prod.fst).foldlM (updatePriorityOf tracker.now) map
  .ok (map, tracker)

def reset : TrackedTxMap := ⟨[], .empty, map.limits.reset⟩

end TrackedTxMap

/-- A machine whose clock ends at an instant. -/
def samplePoolEnv (maxInstant : ℕ) : PoolEnv where
  toEthEnv := sampleEnv
  txHash := fun tx => tx.nonce
  getVotePace := fun _ => 1000
  maxInstant := maxInstant

/-- A limit of two transactions. They expire after `expiry`. -/
def sampleLimits (expiry : ℕ) : TrackedTxLimitsConfig := ⟨16, 2, 4096, 16, expiry, expiry⟩

end MonadBft
