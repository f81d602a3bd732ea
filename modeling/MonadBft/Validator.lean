import MonadBft.Quorum
import MonadBft.Types

/-!
# Validator sets, epochs and signatures

`ValidatorSet` is a nonempty list of members with positive stake, no member twice.
`hasSuperMajorityVotes` and `hasHonestVote` compare the stake of a list of addresses
with a threshold computed in 256-bit arithmetic. Below `2 ^ 255` total stake nothing
wraps around, and a list that passes the supermajority test is a quorum
(`ValidatorSet.isQuorum_of_hasSuperMajorityVotes`).

`EpochManager` maps rounds to epochs: epoch `E` starts on the round recorded for it,
and a committed boundary block schedules the start of the next epoch.

`Env` collects what consensus takes from outside: hashes, signatures, the leader
election and the configuration. `LawfulSignatures` is what is assumed of a signature
collection: aggregation succeeds on valid signatures only, and verification returns
the signers.
-/

open Finset

namespace MonadBft

/-! ## Failures

The assertions and `expect`s of the code. A handler that reaches one stops. -/

/-- Where the code of the block tree would stop. -/
inductive TreePanic where
  /-- `get_committable_id`: the block is not the one the QC points to. -/
  | notTheQcBlock
  /-- `Tree::remove`: no payload index for the removed block. -/
  | payloadIndexMissing
  /-- `Tree::insert`: the block is in the tree already. -/
  | alreadyInTree
  /-- `BlockTree::prune`: the new root is not coherent. -/
  | pruneIncoherent
  /-- A block that must be in the tree is not. -/
  | notInTree
  /-- A block that must have a path to the root has none. -/
  | noPathToRoot
  /-- A walk over the tree does not end. -/
  | endlessWalk
  /-- A sequence number below the root's. -/
  | seqNumUnderflow
  deriving DecidableEq

inductive Panic where
  | tree (panic : TreePanic)
  /-- `insert_epoch_start`: conflicting epoch start round. -/
  | conflictingEpochStart
  /-- `Pacemaker::new` and `process_certificate`: no epoch for the round. -/
  | epochUnavailable
  /-- `process_remote_timeout`: the message is not for the current round. -/
  | timeoutRoundMismatch
  /-- `process_remote_timeout`: the phase is not zero after a TC. -/
  | phaseNotZero
  /-- A threshold query on repeated addresses. -/
  | repeatedAddresses
  /-- An aggregation error other than invalid signatures. -/
  | unexpectedSignatureError
  /-- The aggregation loop never ends: invalid signatures none of which is pending. -/
  | aggregationLoop
  | unsafeVote
  | unsafeNoEndorse
  | unsafeTimeout
  | unsafePropose
  | unsafeRecoveryRequest
  | unsafeHandleProposal
  /-- `process_no_endorsement`: a second certificate for the round. -/
  | certificateExists
  /-- The epoch of a verified message or of the local round is unknown. -/
  | epochNotVerified
  /-- The validator set of a known epoch is missing. -/
  | validatorSetMissing
  /-- The author of a verified message has no certificate key. -/
  | authorNotMapped
  /-- `try_add_and_commit_blocktree`: the tip is not the block's. -/
  | tipNotTheBlock
  /-- `try_vote`: trying to schedule another vote in the same round. -/
  | voteRescheduled
  /-- `maybe_statesync`: the node lags too far behind to stay live. -/
  | mustStatesync
  deriving DecidableEq

/-- The assertions that guard votes, proposals and timeouts. -/
def Panic.isAssertion : Panic → Bool
  | .timeoutRoundMismatch | .unsafeVote | .unsafeNoEndorse | .unsafeTimeout | .unsafePropose
  | .unsafeRecoveryRequest | .unsafeHandleProposal | .voteRescheduled => true
  | _ => false

/-! ## Validator sets -/

/-- The members of an epoch with their stake. -/
structure ValidatorSet where
  validators : List (NodeId × ℕ)
  nodup : (validators.map Prod.fst).Nodup
  pos : ∀ v ∈ validators, 0 < v.2
  ne_nil : validators ≠ []

namespace ValidatorSet

variable (vs : ValidatorSet) {addrs : List NodeId}

def getMembers : List NodeId := vs.validators.map Prod.fst

def totalStake : ℕ := (vs.validators.map Prod.snd).sum

def isMember (addr : NodeId) : Bool := decide (addr ∈ vs.getMembers)

def get? (addr : NodeId) : Option ℕ := (vs.validators.find? fun v => v.1 == addr).map Prod.snd

/-- The first address seen a second time. -/
def firstDuplicate : List NodeId → List NodeId → Option NodeId
  | _, [] => none
  | seen, addr :: addrs =>
    if addr ∈ seen then some addr else firstDuplicate (addr :: seen) addrs

/-- The stake of the members among `addrs`, or the first repeated address. -/
def calculateCurrentStake (addrs : List NodeId) : Except NodeId ℕ :=
  match firstDuplicate [] addrs with
  | some addr => .error addr
  | none => .ok (addrs.filterMap vs.get?).sum

def hasThresholdVotes (addrs : List NodeId) (threshold : ℕ) : Except NodeId Bool :=
  (vs.calculateCurrentStake addrs).map fun voterStake => decide (threshold ≤ voterStake)

/-- More than two thirds of the stake, in 256-bit arithmetic. -/
def hasSuperMajorityVotes (addrs : List NodeId) : Except NodeId Bool :=
  vs.hasThresholdVotes addrs (vs.totalStake * 2 % 2 ^ 256 / 3 + 1)

/-- More than one third of the stake. -/
def hasHonestVote (addrs : List NodeId) : Except NodeId Bool :=
  vs.hasThresholdVotes addrs (vs.totalStake / 3 + 1)

theorem firstDuplicate_eq_none {seen addrs : List NodeId} :
    firstDuplicate seen addrs = none ↔ addrs.Nodup ∧ ∀ a ∈ addrs, a ∉ seen := by
  induction addrs generalizing seen with
  | nil => simp [firstDuplicate]
  | cons a addrs ih =>
    by_cases ha : a ∈ seen
    · simp [firstDuplicate, ha]
    simp only [firstDuplicate, ha, if_false, ih, List.nodup_cons, List.mem_cons, forall_eq_or_imp,
      not_or, not_false_eq_true, true_and]
    constructor
    · rintro ⟨hnd, h⟩
      exact ⟨⟨fun hmem => (h a hmem).1 rfl, hnd⟩, fun b hb => (h b hb).2⟩
    · rintro ⟨⟨hmem, hnd⟩, h⟩
      exact ⟨hnd, fun b hb => ⟨fun hba => hmem (hba ▸ hb), h b hb⟩⟩

theorem calculateCurrentStake_of_nodup (h : addrs.Nodup) :
    vs.calculateCurrentStake addrs = .ok (addrs.filterMap vs.get?).sum := by
  have : firstDuplicate [] addrs = none := firstDuplicate_eq_none.mpr ⟨h, by simp⟩
  simp [calculateCurrentStake, this]

theorem nodup_of_calculateCurrentStake {stake : ℕ}
    (h : vs.calculateCurrentStake addrs = .ok stake) :
    addrs.Nodup ∧ (addrs.filterMap vs.get?).sum = stake := by
  unfold calculateCurrentStake at h
  split at h
  · simp at h
  next hnone =>
    exact ⟨(firstDuplicate_eq_none.mp hnone).1, by simpa using h⟩

/-! ### Supermajorities are quorums -/

/-- The stake of an address, zero outside the set. -/
def stake (addr : NodeId) : ℕ := (vs.get? addr).getD 0

def memberSet : Finset NodeId := vs.getMembers.toFinset

theorem get?_of_mem {v : NodeId × ℕ} (hv : v ∈ vs.validators) : vs.get? v.1 = some v.2 := by
  have hfind : vs.validators.find? (fun u => u.1 == v.1) = some v := by
    refine List.find?_eq_some_iff_append.mpr ⟨by simp, ?_⟩
    obtain ⟨as, bs, heq⟩ := List.append_of_mem hv
    refine ⟨as, bs, heq, fun u hu => ?_⟩
    have hnd := vs.nodup
    rw [heq, List.map_append, List.map_cons] at hnd
    have hdisj := (List.nodup_append.mp hnd).2.2 u.1 (List.mem_map_of_mem hu) v.1 (by simp)
    simpa using hdisj
  simp [get?, hfind]

theorem get?_eq_none {addr : NodeId} (h : addr ∉ vs.getMembers) : vs.get? addr = none := by
  simp only [get?, Option.map_eq_none_iff, List.find?_eq_none]
  rintro v hv
  simp only [beq_iff_eq]
  rintro rfl
  exact h (List.mem_map_of_mem hv)

theorem totalStake_eq : vs.totalStake = ∑ i ∈ vs.memberSet, vs.stake i := by
  rw [memberSet, getMembers, List.sum_toFinset _ vs.nodup, totalStake, List.map_map]
  congr 1
  refine List.map_congr_left fun v hv => ?_
  simp [stake, vs.get?_of_mem hv]

theorem sum_filterMap_get? (h : addrs.Nodup) :
    (addrs.filterMap vs.get?).sum = ∑ i ∈ addrs.toFinset ∩ vs.memberSet, vs.stake i := by
  have hmap : (addrs.filterMap vs.get?).sum = (addrs.map vs.stake).sum := by
    clear h
    induction addrs with
    | nil => rfl
    | cons a addrs ih =>
      rcases ha : vs.get? a with _ | st <;> simp [ha, ih, stake]
  rw [hmap, ← List.sum_toFinset _ h]
  refine (sum_subset inter_subset_left fun i hi hni => ?_).symm
  have : i ∉ vs.getMembers := by simpa [memberSet, hi] using hni
  simp [stake, vs.get?_eq_none this]

/-- A list of addresses that passes the supermajority test is a quorum. -/
theorem isQuorum_of_hasSuperMajorityVotes (hT : 2 * vs.totalStake < 2 ^ 256)
    (h : vs.hasSuperMajorityVotes addrs = .ok true) :
    addrs.Nodup ∧ IsQuorum vs.stake vs.memberSet addrs.toFinset := by
  unfold hasSuperMajorityVotes hasThresholdVotes at h
  rcases hst : vs.calculateCurrentStake addrs with e | st
  · simp [hst, Except.map] at h
  obtain ⟨hnd, hsum⟩ := vs.nodup_of_calculateCurrentStake hst
  have hle : vs.totalStake * 2 % 2 ^ 256 / 3 + 1 ≤ st := by
    simpa [hst, Except.map] using h
  refine ⟨hnd, ?_⟩
  rw [IsQuorum, ← vs.totalStake_eq, ← vs.sum_filterMap_get? hnd, hsum]
  omega

/-- The members that two supermajorities have in common hold more than a third of the stake. -/
theorem hasHonestVote_common (vs : ValidatorSet) (hT : 2 * vs.totalStake < 2 ^ 256)
    {A B : List NodeId} (hA : vs.hasSuperMajorityVotes A = .ok true)
    (hB : vs.hasSuperMajorityVotes B = .ok true) :
    vs.hasHonestVote (A.filter fun addr => addr ∈ B ∧ vs.isMember addr) = .ok true := by
  obtain ⟨hnodup, hqA⟩ := vs.isQuorum_of_hasSuperMajorityVotes hT hA
  obtain ⟨-, hqB⟩ := vs.isQuorum_of_hasSuperMajorityVotes hT hB
  have hnodup' := hnodup.filter fun addr => addr ∈ B ∧ vs.isMember addr
  have hcommon : (A.filter fun addr => addr ∈ B ∧ vs.isMember addr).toFinset ∩ vs.memberSet =
      (A.toFinset ∩ vs.memberSet) ∩ (B.toFinset ∩ vs.memberSet) := by
    ext addr
    simp [isMember, memberSet]
    tauto
  have hlt := hqA.lt_sum_inter hqB
  rw [← hcommon, ← vs.sum_filterMap_get? hnodup', ← vs.totalStake_eq] at hlt
  simp only [hasHonestVote, hasThresholdVotes, vs.calculateCurrentStake_of_nodup hnodup',
    Except.map, Except.ok.injEq, decide_eq_true_eq]
  omega

/-- Two of four members, and a stranger in one of the lists. -/
theorem hasHonestVote_common_four : ∃ vs : ValidatorSet,
    vs.hasSuperMajorityVotes [0, 1, 2] = .ok true ∧
    vs.hasSuperMajorityVotes [1, 7, 2, 3] = .ok true ∧
    vs.hasHonestVote ([0, 1, 2].filter fun addr => addr ∈ [1, 7, 2, 3] ∧ vs.isMember addr) =
      .ok true := by
  let vs : ValidatorSet := ⟨[(0, 5), (1, 5), (2, 5), (3, 5)], by decide, by decide, by decide⟩
  exact ⟨vs, by decide, by decide, hasHonestVote_common vs (by decide) (by decide) (by decide)⟩

theorem ne_nil_of_hasSuperMajorityVotes (h : vs.hasSuperMajorityVotes addrs = .ok true) :
    addrs ≠ [] := by
  rintro rfl
  simp [hasSuperMajorityVotes, hasThresholdVotes, calculateCurrentStake, firstDuplicate,
    Except.map] at h

/-- Two supermajorities share a member that is not on a list with at most a third of the stake. -/
theorem exists_mem_common (hT : 2 * vs.totalStake < 2 ^ 256) {A B faulty : List NodeId}
    (hA : vs.hasSuperMajorityVotes A = .ok true) (hB : vs.hasSuperMajorityVotes B = .ok true)
    (hfaulty : vs.hasHonestVote faulty = .ok false) :
    ∃ id ∈ vs.getMembers, id ∈ A ∧ id ∈ B ∧ id ∉ faulty := by
  have hlt := (vs.isQuorum_of_hasSuperMajorityVotes hT hA).2.lt_sum_inter
    (vs.isQuorum_of_hasSuperMajorityVotes hT hB).2
  unfold hasHonestVote hasThresholdVotes at hfaulty
  rcases hst : vs.calculateCurrentStake faulty with e | st
  · simp [hst, Except.map] at hfaulty
  obtain ⟨hnd, hsum⟩ := vs.nodup_of_calculateCurrentStake hst
  have hle : st ≤ vs.totalStake / 3 := by
    simpa [hst, Except.map, Nat.lt_succ_iff] using hfaulty
  by_contra! hall
  have hsub : (A.toFinset ∩ vs.memberSet) ∩ (B.toFinset ∩ vs.memberSet) ⊆
      faulty.toFinset ∩ vs.memberSet := by
    intro id hid
    simp only [mem_inter, List.mem_toFinset, memberSet] at hid ⊢
    exact ⟨hall id hid.1.2 hid.1.1 hid.2.1, hid.1.2⟩
  have := sum_le_sum_of_subset (f := vs.stake) hsub
  rw [← vs.sum_filterMap_get? hnd, hsum] at this
  rw [← vs.totalStake_eq] at hlt
  omega

/-- The order of the addresses does not matter. -/
theorem hasSuperMajorityVotes_perm {addrs' : List NodeId} (hp : addrs.Perm addrs')
    (h : vs.hasSuperMajorityVotes addrs = .ok true) :
    vs.hasSuperMajorityVotes addrs' = .ok true := by
  unfold hasSuperMajorityVotes hasThresholdVotes at *
  rcases hst : vs.calculateCurrentStake addrs with e | st
  · simp [hst, Except.map] at h
  · obtain ⟨hnd, hsum⟩ := vs.nodup_of_calculateCurrentStake hst
    rw [vs.calculateCurrentStake_of_nodup (hp.nodup_iff.mp hnd)]
    rw [hst] at h
    rwa [← (hp.filterMap _).sum_eq, hsum]

end ValidatorSet

/-! ## Epochs -/

/-- The rounds on which epochs start, ordered by epoch. -/
structure EpochManager where
  /-- Blocks per epoch. -/
  epochLength : ℕ
  /-- Rounds between a boundary block and the start of the next epoch. -/
  epochStartDelay : ℕ
  epochStarts : List (ℕ × ℕ)
  deriving DecidableEq

def isBoundaryBlock (seqNum epochLength : ℕ) : Bool :=
  decide (seqNum % epochLength = epochLength - 1)

def toEpoch (seqNum epochLength : ℕ) : ℕ := seqNum / epochLength + 1

namespace EpochManager

variable (em : EpochManager) {round epoch start : ℕ} {em' : EpochManager}

/-- Insert in key order, keeping an entry that is there. -/
def insertSorted (epoch round : ℕ) : List (ℕ × ℕ) → List (ℕ × ℕ)
  | [] => [(epoch, round)]
  | (e, r) :: starts =>
    if epoch < e then (epoch, round) :: (e, r) :: starts
    else if epoch = e then (e, r) :: starts
    else (e, r) :: insertSorted epoch round starts

/-- Record the start of an epoch. The same epoch may be scheduled twice only with the
same round. -/
def insertEpochStart (epoch round : ℕ) : Except Panic EpochManager :=
  match em.epochStarts.lookup epoch with
  | none => .ok { em with epochStarts := insertSorted epoch round em.epochStarts }
  | some r => if r = round then .ok em else .error .conflictingEpochStart

/-- Schedule the next epoch if the committed block is the last one of its epoch. -/
def scheduleEpochStart (blockNum blockRound : ℕ) : Except Panic EpochManager :=
  if isBoundaryBlock blockNum em.epochLength then
    em.insertEpochStart (toEpoch blockNum em.epochLength + 1) (blockRound + em.epochStartDelay)
  else .ok em

/-- The last epoch that has started by `round`. -/
def getEpoch (round : ℕ) : Option ℕ :=
  (em.epochStarts.reverse.find? fun start => decide (start.2 ≤ round)).map Prod.fst

/-- Once some epoch has started, every later round has an epoch. -/
theorem isSome_getEpoch_of_le {em : EpochManager} {round' : ℕ} (hle : round ≤ round')
    (h : (em.getEpoch round).isSome = true) : (em.getEpoch round').isSome = true := by
  simp only [getEpoch, Option.isSome_map, List.find?_isSome] at h ⊢
  obtain ⟨start, hmem, hstart⟩ := h
  exact ⟨start, hmem, decide_eq_true ((of_decide_eq_true hstart).trans hle)⟩

/-- An epoch that starts after `round` does not change the epoch of `round`. -/
theorem find?_reverse_insertSorted (h : round < start) (starts : List (ℕ × ℕ)) :
    (insertSorted epoch start starts).reverse.find? (fun s => decide (s.2 ≤ round)) =
      starts.reverse.find? fun s => decide (s.2 ≤ round) := by
  have hnew : decide (start ≤ round) = false := by simpa using h
  induction starts with
  | nil => simp [insertSorted, hnew]
  | cons s starts ih =>
    obtain ⟨e, r⟩ := s
    unfold insertSorted
    split_ifs
    · by_cases hr : r ≤ round <;> simp [hr, hnew]
    · rfl
    · simp only [List.reverse_cons, List.find?_append, ih]

theorem getEpoch_insertEpochStart {em : EpochManager}
    (h : em.insertEpochStart epoch start = .ok em') (hlt : round < start) :
    em'.getEpoch round = em.getEpoch round := by
  unfold insertEpochStart at h
  split at h
  · cases h
    simp only [getEpoch, find?_reverse_insertSorted hlt]
  · split at h
    · rw [Except.ok.inj h]
    · cases h

/-- Committing a block whose epoch change lies ahead keeps the epoch of `round`. -/
theorem getEpoch_scheduleEpochStart {em : EpochManager} {blockNum blockRound : ℕ}
    (h : em.scheduleEpochStart blockNum blockRound = .ok em')
    (hlt : isBoundaryBlock blockNum em.epochLength = true →
      round < blockRound + em.epochStartDelay) :
    em'.getEpoch round = em.getEpoch round := by
  unfold scheduleEpochStart at h
  split at h
  next hb => exact getEpoch_insertEpochStart h (hlt hb)
  · rw [Except.ok.inj h]

end EpochManager

/-! ## The environment -/

/-- The certificate keys of the validators of an epoch. -/
abbrev ValidatorMapping := List (NodeId × ℕ)

variable (T : Types)

/-- Why an aggregation of signatures failed. -/
inductive SignatureCollectionError where
  | nodeIdNotInMapping (sigs : List (NodeId × T.SignatureType))
  | conflictingSignatures (node : NodeId) (sig sig' : T.SignatureType)
  | invalidSignaturesCreate (sigs : List (NodeId × T.SignatureType))

/-- What consensus takes from outside: hashes, signatures, the leader election and
the configuration. -/
structure Env where
  /-- The hash of a header. -/
  getId : ConsensusBlockHeader T → T.BlockId
  GENESIS_BLOCK_ID : T.BlockId
  /-- The hash of a body. -/
  getBodyId : T.BlockBody → T.BlockBodyId
  /-- A node's signature with its certificate key. -/
  sign : NodeId → SigningMessage T → T.SignatureType
  /-- The format check of a signature. -/
  validateSignature : T.SignatureType → Bool
  /-- Whether a signature is the node's, by the key the mapping records for it. -/
  verifySignature : ValidatorMapping → NodeId → SigningMessage T → T.SignatureType → Bool
  /-- Aggregate signatures on one message. -/
  newCollection : List (NodeId × T.SignatureType) → ValidatorMapping → SigningMessage T →
    Except (SignatureCollectionError T) T.SignatureCollection
  /-- The signers of an aggregate. -/
  verifyCollection : T.SignatureCollection → ValidatorMapping → SigningMessage T →
    Option (List NodeId)
  numSignatures : T.SignatureCollection → ℕ
  /-- The aggregate of no signatures. -/
  emptyCollection : T.SignatureCollection
  /-- A node's signature on a header it proposes. -/
  signHeader : NodeId → ConsensusBlockHeader T → T.HeaderSignature
  /-- The signer of a header. -/
  signatureAuthor : ConsensusBlockHeader T → T.HeaderSignature → Option NodeId
  getLeader : ℕ → ValidatorSet → NodeId
  /-- The order in which a hash map of grouped timeouts is iterated. -/
  groupOrder : List (TimeoutInfo × List (NodeId × T.SignatureType)) →
    List (TimeoutInfo × List (NodeId × T.SignatureType))
  /-- The bound on message delivery, in nanoseconds. -/
  delta : ℕ
  /-- The time between votes of consecutive rounds, in nanoseconds. -/
  votePace : ℕ → ℕ
  /-- How far a block timestamp may be from the local time. -/
  maxDeltaNs : ℕ
  liveToStatesyncThreshold : ℕ

variable {T}

/-- What is assumed of the signature collection, for the keys of one epoch: an
aggregate of signatures of distinct nodes exists exactly if all of them are valid,
invalid ones are reported, and verification returns the signers. -/
structure LawfulSignatures (env : Env T) (mapping : ValidatorMapping) : Prop where
  new_ok : ∀ {sigs msg}, (sigs.map Prod.fst).Nodup →
    ((∃ sct, env.newCollection sigs mapping msg = .ok sct) ↔
      ∀ s ∈ sigs, env.verifySignature mapping s.1 msg s.2 = true)
  verify_new : ∀ {sigs msg sct}, (sigs.map Prod.fst).Nodup →
    env.newCollection sigs mapping msg = .ok sct →
      ∃ signers, env.verifyCollection sct mapping msg = some signers ∧
        signers.Perm (sigs.map Prod.fst)
  num_new : ∀ {sigs msg sct}, (sigs.map Prod.fst).Nodup →
    env.newCollection sigs mapping msg = .ok sct → env.numSignatures sct = sigs.length

/-- The QC every chain starts from. -/
def Env.genesisQc (env : Env T) : QuorumCertificate T where
  info := { id := env.GENESIS_BLOCK_ID, round := GENESIS_ROUND, epoch := 1 }
  signatures := env.emptyCollection

namespace QuorumCertificate

/-- The commit rule: a QC of the round right after the QC its block carries commits
that block's parent. The block must be the one the QC points to. -/
def getCommittableId (env : Env T) (qc : QuorumCertificate T)
    (qcParentBlock : ConsensusBlockHeader T) : Except TreePanic (Option T.BlockId) :=
  if qc.info.id = env.getId qcParentBlock then
    if qc.info.round = qcParentBlock.qc.info.round + 1 then .ok (some qcParentBlock.getParentId)
    else .ok none
  else .error .notTheQcBlock

end QuorumCertificate

/-- The validators of each epoch, as far as they are known. -/
abbrev ValidatorsEpochMapping := ℕ → Option (ValidatorSet × ValidatorMapping)

end MonadBft
