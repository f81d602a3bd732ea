import MonadBft.Eth.Pool
import MonadBft.Eth.PoolBookkeeping

/-!
# The events of the pool

A client that has a snapshot of the pool keeps it up to date with the events of the calls that
follow: an insertion adds a transaction, every other event removes it
(`Replay.applyEvents`). This gives the snapshot at every later time if no batch has a
transaction that is in the pool already, or one twice (`EthTxPool.snapshot_of_events`). A
transaction that is offered again is refused with an event that says it was dropped, while the
pool still has it (`EthTxPool.resubmission_reported_dropped`).

Every transaction that is handed in has an event in any case.
-/

namespace MonadBft

open Assoc List EthTxPoolEventTracker PoolTx TrackedTxMap

variable {env : PoolEnv}

/-- Validation hands back the transaction that it refuses. -/
theorem PoolTx.validate_eq_error {env : EthEnv} {lastCommit : EthBlockHeader env} {chainId : ℕ}
    {chainParams : ChainParams} {executionParams : ExecutionChainParams} {tx : Recovered}
    {kind : PoolTxKind} {invalid : Recovered × EthTxPoolDropReason}
    (h : validate lastCommit chainId chainParams executionParams tx kind = .error invalid) :
    invalid.1 = tx := by
  unfold validate at h
  repeat' split at h
  all_goals cases h
  all_goals rfl

namespace EthTxPoolEventTracker

variable (items : List PoolTx)

/-- Transactions that are refused one after the other. -/
theorem drops_refuse (drops : List (TxHash × EthTxPoolDropReason))
    (tracker : EthTxPoolEventTracker) :
    PoolChanges env (items, tracker.events) (drops.map Prod.fst)
      (items, (drops.foldl (fun tracker e => tracker.drop e.1 e.2) tracker).events) := by
  induction drops generalizing tracker with
  | nil => exact .refl
  | cons e drops ih =>
    have hfirst : PoolChanges env (items, tracker.events) [e.1]
        (items, (tracker.drop e.1 e.2).events) :=
      Replay.Changes.refl.refuse e.1 (EthTxPoolEventType.drop e.2) rfl
    exact hfirst.trans (ih (tracker.drop e.1 e.2))

theorem dropAll_refuses (txs : List Recovered) (reason : EthTxPoolDropReason)
    (tracker : EthTxPoolEventTracker) :
    PoolChanges env (items, tracker.events) (txs.map fun tx => env.txHash tx.toTxEnvelope)
      (items, (tracker.dropAll env txs reason).events) := by
  have h : PoolChanges env _ _ _ :=
    drops_refuse items (txs.map fun tx => (env.txHash tx.toTxEnvelope, reason)) tracker
  rw [map_map, foldl_map] at h
  exact h

theorem dropAll_refuses_poolTxs (txs : List PoolTx) (reason : EthTxPoolDropReason)
    (tracker : EthTxPoolEventTracker) :
    PoolChanges env (items, tracker.events) (txs.map (hash env))
      (items, (tracker.dropAll env (txs.map tx) reason).events) := by
  have h : PoolChanges env _ _ _ := dropAll_refuses items (txs.map tx) reason tracker
  rwa [map_map] at h

end EthTxPoolEventTracker

namespace EthTxPool

/-- What an operation of the pool does, with the transactions that are handed to it. -/
structure Moves (env : PoolEnv) (offered : List TxHash)
    (s s' : EthTxPool env × EthTxPoolEventTracker) : Prop where
  book : s'.1.tracked.Book env fun _ => True
  changes : PoolChanges env (s.1.tracked.iterTxs, s.2.events) offered
    (s'.1.tracked.iterTxs, s'.2.events)

variable {pool : EthTxPool env} {tracker : EthTxPoolEventTracker}
  {s s' s'' : EthTxPool env × EthTxPoolEventTracker} {offered offered' : List TxHash}
  {r : Except PoolArm (TrackedTxMap × EthTxPoolEventTracker)}
  {blockPolicy : EthBlockPolicy env.toEthEnv} {stateBackend : StateBackend env.toEthEnv}

theorem Moves.trans (h : Moves env offered s s') (h' : Moves env offered' s' s'') :
    Moves env (offered ++ offered') s s'' :=
  ⟨h'.book, h.changes.trans h'.changes⟩

/-- Only events are added. -/
theorem Moves.of_refused {tracker' : EthTxPoolEventTracker}
    (hbook : pool.tracked.Book env fun _ => True)
    (h : PoolChanges env (pool.tracked.iterTxs, tracker.events) offered
      (pool.tracked.iterTxs, tracker'.events)) :
    Moves env offered (pool, tracker) (pool, tracker') :=
  ⟨hbook, h⟩

theorem liftTracked_eq_ok (h : pool.liftTracked r = .ok s') :
    ∃ map tracker', r = .ok (map, tracker') ∧ s' = ({ pool with tracked := map }, tracker') := by
  unfold liftTracked at h
  split at h
  · exact ⟨_, _, rfl, (Except.ok.inj h).symm⟩
  · cases h

/-- An operation that removes transactions. -/
theorem Moves.of_shrinks (hsafe : Safe True r fun s' => s'.1.Book env (fun _ => True) ∧
      TrackedTxMap.Shrinks env (pool.tracked, tracker) s') (h : pool.liftTracked r = .ok s') :
    Moves env [] (pool, tracker) s' := by
  obtain ⟨map, tracker', hr, rfl⟩ := liftTracked_eq_ok h
  obtain ⟨hbook, hshrinks⟩ := hsafe.ok hr
  exact ⟨hbook, hshrinks.changes⟩

theorem staticValidateAllTxs_moves (h : pool.staticValidateAllTxs tracker = .ok s')
    (hbook : pool.tracked.Book env fun _ => True) : Moves env [] (pool, tracker) s' :=
  .of_shrinks ((staticValidateAllTxs_ok hbook _ _ _).imp False.elim) h

theorem evictExpiredTxs_moves {clock : Address → ℕ} (hbook : pool.tracked.Book env fun _ => True)
    (h : pool.evictExpiredTxs tracker clock = .ok s') : Moves env [] (pool, tracker) s' :=
  .of_shrinks ((evictExpiredTxs_safe hbook rfl clock).imp fun _ => trivial) h

/-! ## Insertion -/

section Insert

variable {lastCommit : EthBlockHeader env.toEthEnv} {txs : List (Recovered × PoolTxKind)}
  {accountNonces : AddressMap ℕ}

/-- Every transaction is valid or not. -/
theorem perm_validTxs : ((pool.invalidTxs lastCommit txs).map
      (fun invalid => env.txHash invalid.1.toTxEnvelope) ++
    (pool.validTxs lastCommit txs).map (hash env)).Perm
      (txs.map fun tx => env.txHash tx.1.toTxEnvelope) := by
  induction txs with
  | nil => exact .refl _
  | cons tx txs ih =>
    unfold invalidTxs validTxs at ih ⊢
    cases hvalid : PoolTx.validate lastCommit pool.chainId pool.chainRevision
        pool.executionRevision.executionChainParams tx.1 tx.2 with
    | ok pooled =>
      have hhash : pooled.hash env = env.txHash tx.1.toTxEnvelope := by
        unfold PoolTx.hash
        rw [(PoolTx.validate_eq_ok hvalid).raw]
      rw [filterMap_cons_none (by rw [hvalid]),
        filterMap_cons_some (by rw [hvalid]; rfl), map_cons, map_cons, hhash]
      exact perm_middle.trans (ih.cons _)
    | error invalid =>
      rw [filterMap_cons_some (by rw [hvalid]),
        filterMap_cons_none (by rw [hvalid]; rfl), map_cons, map_cons,
        validate_eq_error hvalid]
      exact ih.cons _

theorem insertGroup_moves {group : Address × List PoolTx}
    (hbook : s.1.tracked.Book env fun _ => True) (h : insertGroup accountNonces s group = .ok s') :
    Moves env (group.2.map (hash env)) s s' := by
  unfold insertGroup at h
  split at h
  · cases h
    exact .of_refused hbook (dropAll_refuses_poolTxs _ _ _ _)
  · obtain ⟨map, tracker', hr, rfl⟩ := liftTracked_eq_ok h
    obtain ⟨hbook', hinserts⟩ := (tryInsertTxs_safe hbook rfl trivial _ _ _).ok hr
    exact ⟨hbook', hinserts.changes⟩

theorem insertGroups_moves {groups : List (Address × List PoolTx)}
    (hbook : s.1.tracked.Book env fun _ => True)
    (h : groups.foldlM (insertGroup accountNonces) s = .ok s') :
    Moves env ((groups.flatMap Prod.snd).map (hash env)) s s' := by
  induction groups generalizing s with
  | nil =>
    cases h
    exact ⟨hbook, .refl⟩
  | cons group groups ih =>
    obtain ⟨s₁, hfirst, hrest⟩ := foldlM_cons_eq_ok.mp h
    have hmoves := insertGroup_moves hbook hfirst
    rw [flatMap_cons, map_append]
    exact hmoves.trans (ih hmoves.book hrest)

/-- The accounts' groups are the transactions. -/
theorem perm_groups (groupOrder : GroupOrder) (txs : List PoolTx) :
    ((groupOrder.order (Assoc.group (fun tx => tx.tx.signer) id txs)).flatMap Prod.snd).Perm
      txs := by
  have hgroup : ((Assoc.group (fun tx : PoolTx => tx.tx.signer) id txs).flatMap Prod.snd).Perm
      (txs.map id) := perm_group
  rw [map_id] at hgroup
  exact ((groupOrder.perm _).flatMap_right _).trans hgroup

/-- Every transaction is invalid, or its account cannot pay for it, or it is in a group. -/
theorem perm_offered {accountBalances : AddressMap AccountBalanceState} {groups : List PoolTx}
    (hgroups : groups.Perm ((pool.validTxs lastCommit txs).filter
      fun tx => !isInsufficient lastCommit accountBalances tx)) :
    (((pool.invalidTxs lastCommit txs).map fun invalid => env.txHash invalid.1.toTxEnvelope) ++
      ((pool.validTxs lastCommit txs).filter (isInsufficient lastCommit accountBalances)).map
        (hash env) ++ groups.map (hash env)).Perm
      (txs.map fun tx => env.txHash tx.1.toTxEnvelope) := by
  have hvalid := (hgroups.append_left _).trans
    (filter_append_perm (isInsufficient lastCommit accountBalances) _)
  rw [append_assoc, ← map_append]
  exact ((hvalid.map _).append_left _).trans perm_validTxs

theorem insertTxs_moves {groupOrder : GroupOrder} (hbook : pool.tracked.Book env fun _ => True)
    (h : pool.insertTxs tracker blockPolicy stateBackend groupOrder txs = .ok s') :
    ∃ offered, offered.Perm (txs.map fun tx => env.txHash tx.1.toTxEnvelope) ∧
      Moves env offered (pool, tracker) s' := by
  unfold insertTxs at h
  split at h
  · cases h
    refine ⟨_, .refl _, .of_refused hbook ?_⟩
    have hrefuse : PoolChanges env _ _ _ := dropAll_refuses
      pool.tracked.iterTxs (txs.map Prod.fst) .poolNotReady tracker
    rwa [map_map] at hrefuse
  next lastCommit hlast =>
    have hinvalid : PoolChanges env _ _ _ := drops_refuse
      pool.tracked.iterTxs ((pool.invalidTxs lastCommit txs).map fun invalid =>
        (env.txHash invalid.1.toTxEnvelope, invalid.2)) tracker
    rw [map_map, foldl_map] at hinvalid
    obtain ⟨balances, -, h⟩ := bind_eq_ok.mp h
    split at h
    · cases h
      exact ⟨_, perm_validTxs, .of_refused hbook
        (hinvalid.trans (dropAll_refuses_poolTxs _ _ _ _))⟩
    next accountBalances =>
      have hinsufficient : PoolChanges env _ _ _ := hinvalid.trans
        (dropAll_refuses_poolTxs pool.tracked.iterTxs ((pool.validTxs
          lastCommit txs).filter (isInsufficient lastCommit accountBalances)) .insufficientBalance _)
      obtain ⟨nonces, -, h⟩ := bind_eq_ok.mp h
      split at h
      · cases h
        exact ⟨_, perm_offered (perm_groups _ _), .of_refused hbook
          (hinsufficient.trans (dropAll_refuses_poolTxs _ _ _ _))⟩
      · exact ⟨_, perm_offered (perm_groups _ _),
          (Moves.of_refused hbook hinsufficient).trans (insertGroups_moves hbook h)⟩

end Insert

/-! ## Blocks, rounds and proposals -/

section

variable (hbook : pool.tracked.Book env fun _ => True) {clock : Address → ℕ}

include hbook

theorem withRevisions_moves {chainRevision : ChainParams} {votePace : ℕ}
    {executionRevision : MonadExecutionRevision}
    (h : pool.withRevisions tracker chainRevision votePace executionRevision = .ok s') :
    Moves env [] (pool, tracker) s' := by
  unfold withRevisions at h
  split at h
  · obtain ⟨hbook', hchanges⟩ := staticValidateAllTxs_moves h hbook
    exact ⟨hbook', hchanges⟩
  · cases h
    exact ⟨hbook, .refl⟩

theorem updateCommittedBlock_moves {committedBlock : EthValidatedBlock env.toEthEnv} {timestamp : ℕ}
    (h : pool.updateCommittedBlock tracker clock committedBlock timestamp = .ok s') :
    Moves env [] (pool, tracker) s' := by
  unfold updateCommittedBlock at h
  split at h
  · cases h
  obtain ⟨s₁, hvalidate, h⟩ := bind_eq_ok.mp h
  obtain ⟨s₂, hupdate, h⟩ := bind_eq_ok.mp h
  obtain ⟨hbook₁, hchanges₁⟩ := withRevisions_moves (by exact hbook) hvalidate
  have hmoves₁ : Moves env [] (pool, tracker) s₁ := ⟨hbook₁, hchanges₁⟩
  have hmoves₂ : Moves env [] s₁ s₂ := by
    obtain ⟨s, hs, hbook₂, hshrinks⟩ :=
      updateCommittedNonceUsages_ok hmoves₁.book s₁.2
        (s₁.1.trackedUsages committedBlock.nonceUsages)
    exact .of_shrinks (Safe.of_ok hs ⟨hbook₂, hshrinks⟩) hupdate
  exact hmoves₁.trans (hmoves₂.trans (evictExpiredTxs_moves hmoves₂.book h))

theorem enterRound_moves {round : ℕ} (h : pool.enterRound tracker round = .ok s') :
    Moves env [] (pool, tracker) s' := by
  unfold enterRound at h
  split at h
  · cases h
  · exact withRevisions_moves hbook h

theorem createProposal_moves {request : ProposalRequest env}
    {shuffle : List OrderedTxGroup → List OrderedTxGroup}
    {outcome : Except SequencingFailure (List Recovered)}
    (h : pool.createProposal tracker clock request shuffle blockPolicy stateBackend =
      .ok (s', outcome)) :
    Moves env [] (pool, tracker) s' := by
  obtain ⟨s₁, hevict, h⟩ := bind_eq_ok.mp h
  have hmoves₁ := evictExpiredTxs_moves hbook hevict
  dsimp only at h
  split at h
  · cases h
  · obtain ⟨s₂, hvalidate, h⟩ := bind_eq_ok.mp h
    cases h
    exact hmoves₁.trans (withRevisions_moves hmoves₁.book hvalidate)

end

end EthTxPool

/-! ## Calls -/

inductive PoolOp (env : PoolEnv) where
  | insertTxs (blockPolicy : EthBlockPolicy env.toEthEnv) (stateBackend : StateBackend env.toEthEnv)
      (groupOrder : GroupOrder) (txs : List (Recovered × PoolTxKind))
  | updateCommittedBlock (clock : Address → ℕ) (committedBlock : EthValidatedBlock env.toEthEnv)
      (timestamp : ℕ)
  | enterRound (round : ℕ)
  | createProposal (clock : Address → ℕ) (request : EthTxPool.ProposalRequest env)
      (shuffle : List OrderedTxGroup → List OrderedTxGroup)
      (blockPolicy : EthBlockPolicy env.toEthEnv) (stateBackend : StateBackend env.toEthEnv)

/-- The transactions that are handed to a call. -/
def PoolOp.offered : PoolOp env → List TxHash
  | insertTxs _ _ _ txs => txs.map fun tx => env.txHash tx.1.toTxEnvelope
  | _ => []

namespace EthTxPool

/-- A call with its own map of events. -/
def apply (pool : EthTxPool env) (now : ℕ) (op : PoolOp env) :
    Except PoolFailure (EthTxPool env × EthTxPoolEventTracker) :=
  let tracker : EthTxPoolEventTracker := ⟨now, []⟩
  match op with
  | .insertTxs blockPolicy stateBackend groupOrder txs =>
    pool.insertTxs tracker blockPolicy stateBackend groupOrder txs
  | .updateCommittedBlock clock committedBlock timestamp =>
    pool.updateCommittedBlock tracker clock committedBlock timestamp
  | .enterRound round => pool.enterRound tracker round
  | .createProposal clock request shuffle blockPolicy stateBackend =>
    (pool.createProposal tracker clock request shuffle blockPolicy stateBackend).map Prod.fst

/-- Calls one after the other, each in a state with `ok`, and the events of each. -/
inductive Calls (ok : EthTxPool env → PoolOp env → Prop) : EthTxPool env →
    List (PoolOp env × List (TxHash × EthTxPoolEventType)) → EthTxPool env → Prop
  | nil {pool : EthTxPool env} : Calls ok pool [] pool
  | cons {pool pool' pool'' : EthTxPool env} {op : PoolOp env} {tracker : EthTxPoolEventTracker}
      {trace : List (PoolOp env × List (TxHash × EthTxPoolEventType))} (now : ℕ)
      (hok : ok pool op) (h : pool.apply now op = .ok (pool', tracker))
      (hrest : Calls ok pool' trace pool'') : Calls ok pool ((op, tracker.events) :: trace) pool''

/-- No transaction is handed in that is in the pool, or twice. -/
def Fresh (pool : EthTxPool env) (op : PoolOp env) : Prop :=
  op.offered.Nodup ∧ ∀ txHash ∈ op.offered, txHash ∉ pool.generateSnapshot

def replayEvents (known : List TxHash)
    (trace : List (PoolOp env × List (TxHash × EthTxPoolEventType))) : List TxHash :=
  trace.foldl (fun known call => Replay.applyEvents EthTxPoolEventType.isInsert known call.2) known

section Runs

variable {pool pool' : EthTxPool env} {ok : EthTxPool env → PoolOp env → Prop}
  {trace : List (PoolOp env × List (TxHash × EthTxPoolEventType))}

section

variable (hbook : pool.tracked.Book env fun _ => True) {op : PoolOp env}
  {s' : EthTxPool env × EthTxPoolEventTracker} {now : ℕ}

include hbook

theorem apply_moves (h : pool.apply now op = .ok s') :
    ∃ offered, offered.Perm op.offered ∧ Moves env offered (pool, ⟨now, []⟩) s' := by
  cases op with
  | insertTxs blockPolicy stateBackend groupOrder txs => exact insertTxs_moves hbook h
  | updateCommittedBlock clock committedBlock timestamp =>
    exact ⟨[], .refl _, updateCommittedBlock_moves hbook h⟩
  | enterRound round => exact ⟨[], .refl _, enterRound_moves hbook h⟩
  | createProposal clock request shuffle blockPolicy stateBackend =>
    unfold apply at h
    dsimp only at h
    cases hproposal : pool.createProposal ⟨now, []⟩ clock request shuffle blockPolicy
        stateBackend with
    | error failure =>
      rw [hproposal] at h
      cases h
    | ok r =>
      rw [hproposal] at h
      cases h
      exact ⟨[], .refl _, createProposal_moves hbook hproposal⟩

/-- One call that is handed nothing it has. -/
theorem apply_replays (hnodup : pool.generateSnapshot.Nodup) (hfresh : pool.Fresh op)
    (h : pool.apply now op = .ok s') :
    s'.1.tracked.Book env (fun _ => True) ∧ s'.1.generateSnapshot.Nodup ∧
      ∀ txHash, txHash ∈ s'.1.generateSnapshot ↔
        txHash ∈ Replay.applyEvents EthTxPoolEventType.isInsert pool.generateSnapshot
          s'.2.events := by
  obtain ⟨offered, hperm, hmoves⟩ := apply_moves hbook h
  have hstart : ∀ i, i ∈ pool.tracked.iterTxs.map (hash env) ↔ Replay.replay
      EthTxPoolEventType.isInsert (i ∈ pool.generateSnapshot) none := fun i => Iff.rfl
  obtain ⟨hnodup', hiff⟩ := hmoves.changes.replays hnodup
    (fun i hi => hfresh.2 i (hperm.mem_iff.mp hi)) (hperm.nodup_iff.mpr hfresh.1) hstart
  refine ⟨hmoves.book, hnodup', fun txHash => (hiff txHash).trans ?_⟩
  exact (Replay.mem_applyEvents (hmoves.changes.nodup_events .nil)).symm

/-- The state of the pool in calls that are handed nothing it has. -/
theorem Calls.replays (h : Calls Fresh pool trace pool') (hnodup : pool.generateSnapshot.Nodup)
    {known : List TxHash} (hknown : ∀ txHash, txHash ∈ pool.generateSnapshot ↔ txHash ∈ known) :
    pool'.tracked.Book env (fun _ => True) ∧ pool'.generateSnapshot.Nodup ∧
      ∀ txHash, txHash ∈ pool'.generateSnapshot ↔ txHash ∈ replayEvents known trace := by
  induction h generalizing known with
  | nil => exact ⟨hbook, hnodup, hknown⟩
  | @cons pool pool₁ pool' op tracker trace now hok h hrest ih =>
    obtain ⟨hbook₁, hnodup₁, hiff₁⟩ := apply_replays hbook hnodup hok h
    refine ih hbook₁ hnodup₁ fun txHash => (hiff₁ txHash).trans ?_
    have hevents : (tracker.events.map Prod.fst).Nodup := by
      obtain ⟨offered, -, hmoves⟩ := apply_moves hbook h
      exact hmoves.changes.nodup_events .nil
    rw [Replay.mem_applyEvents hevents, Replay.mem_applyEvents hevents, hknown txHash]

/-- Every transaction that is handed in has an event. -/
theorem Calls.reported (h : Calls ok pool trace pool') :
    ∀ call ∈ trace, ∀ txHash ∈ call.1.offered, (get? call.2 txHash).isSome := by
  induction h with
  | nil => exact nofun
  | cons now hok h hrest ih =>
    obtain ⟨offered, hperm, hmoves⟩ := apply_moves hbook h
    refine forall_mem_cons.mpr ⟨fun txHash hmem => ?_, ih hmoves.book⟩
    exact hmoves.changes.reported (hperm.mem_iff.mpr hmem)

end

theorem book_new (limits : TrackedTxLimitsConfig) :
    (TrackedTxMap.new limits).Book env fun _ => True :=
  kept_empty.book

/-- In every run of calls that are handed nothing the pool has and nothing twice, a snapshot and
the events that follow it give every later snapshot. In every run whatever, each transaction that
is handed in has an event. -/
theorem snapshot_of_events (limits : TrackedTxLimitsConfig) (chainId : ℕ)
    (chainRevision : ChainParams) (votePace : ℕ) (executionRevision : MonadExecutionRevision) :
    (∀ trace (pool : EthTxPool env) trace' pool',
      Calls Fresh (new limits chainId chainRevision votePace executionRevision) trace pool →
      Calls Fresh pool trace' pool' → ∀ txHash,
        txHash ∈ pool'.generateSnapshot ↔ txHash ∈ replayEvents pool.generateSnapshot trace') ∧
    ∀ trace (pool : EthTxPool env),
      Calls (fun _ _ => True) (new limits chainId chainRevision votePace executionRevision) trace
        pool →
      ∀ call ∈ trace, ∀ txHash ∈ call.1.offered, (get? call.2 txHash).isSome := by
  constructor
  · intro trace pool trace' pool' h h'
    obtain ⟨hbook, hnodup, -⟩ := h.replays (book_new limits) .nil fun _ => Iff.rfl
    exact (h'.replays hbook hnodup fun _ => Iff.rfl).2.2
  · intro trace pool h
    exact h.reported (book_new limits)

end Runs

/-! ## A transfer that is handed in twice -/

/-- A pool before its first block. -/
def samplePool : EthTxPool (samplePoolEnv 1000) :=
  new (sampleLimits 300) 20143 (sampleEnv.getChainRevision 0) 1000 .vFour

def sampleCommit : PoolOp (samplePoolEnv 1000) :=
  .updateCommittedBlock (fun _ => 5) (sampleBlock 1) 1

/-- A transfer comes in, from an account with funds. -/
def sampleSubmission : PoolOp (samplePoolEnv 1000) :=
  .insertTxs (EthBlockPolicy.new sampleEnv GENESIS_SEQ_NUM 2)
    ⟨fun _ _ _ => .ok fun _ => some ⟨0, 10 ^ 20, false⟩, fun _ _ _ => .ok (0 : ℕ)⟩
    ⟨id, fun _ => .refl _⟩ [(⟨sampleTransfer 7 0, 7⟩, .forwarded 0)]

/-- After the block, after the transfer has come, and after it has come again. -/
def sampleCommitted : EthTxPool (samplePoolEnv 1000) × EthTxPoolEventTracker :=
  (samplePool.apply 5 sampleCommit).toOption.get (by decide +kernel)

def sampleSubmitted : EthTxPool (samplePoolEnv 1000) × EthTxPoolEventTracker :=
  (sampleCommitted.1.apply 6 sampleSubmission).toOption.get (by decide +kernel)

def sampleResubmitted : EthTxPool (samplePoolEnv 1000) × EthTxPoolEventTracker :=
  (sampleSubmitted.1.apply 7 sampleSubmission).toOption.get (by decide +kernel)

theorem snapshot_of_events_sampleSubmission :
    0 ∈ sampleSubmitted.1.generateSnapshot ∧
      0 ∈ replayEvents sampleCommitted.1.generateSnapshot
        [(sampleSubmission, sampleSubmitted.2.events)] := by
  have hmem : 0 ∈ sampleSubmitted.1.generateSnapshot := by decide +kernel
  have hcommit : Calls Fresh samplePool [(sampleCommit, sampleCommitted.2.events)]
      sampleCommitted.1 := .cons 5 ⟨.nil, nofun⟩ (eq_ok_get _) .nil
  have hsubmit : Calls Fresh sampleCommitted.1 [(sampleSubmission, sampleSubmitted.2.events)]
      sampleSubmitted.1 := .cons 6 ⟨by decide, by decide +kernel⟩ (eq_ok_get _) .nil
  exact ⟨hmem, ((snapshot_of_events (sampleLimits 300) 20143 (sampleEnv.getChainRevision 0) 1000
    .vFour).1 _ _ _ _ hcommit hsubmit 0).mp hmem⟩

/-- The transfer is in the pool, and the event of the second call says that it was dropped. -/
theorem resubmission_reported_dropped :
    ∃ trace trace' : List (PoolOp (samplePoolEnv 1000) × List (TxHash × EthTxPoolEventType)),
      Calls (fun _ _ => True) samplePool trace sampleSubmitted.1 ∧
      Calls (fun _ _ => True) sampleSubmitted.1 trace' sampleResubmitted.1 ∧
      0 ∈ sampleResubmitted.1.generateSnapshot ∧
      0 ∉ replayEvents sampleSubmitted.1.generateSnapshot trace' := by
  refine ⟨_, _, .cons 5 trivial (eq_ok_get _) (.cons 6 trivial (eq_ok_get _) .nil),
    .cons 7 trivial (eq_ok_get _) .nil, by decide +kernel, by decide +kernel⟩

end EthTxPool

end MonadBft
