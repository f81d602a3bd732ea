import MonadBft.Prog
import MonadBft.Validator

/-!
# Verifying certificates and messages

A message is handled only if it validates: it is well formed, its epoch is the local
one, and the certificates in it verify. `verifyQc`, `verifyTc`, `verifyTip` and
`verifyNec` check signatures against the validators of the certificate's epoch
(`epochToValidators`).

A timeout certificate may extend a tip, a tip may carry the certificate of an earlier
round without tip, and that one extends a QC. `verifyTcWith` is the check of a timeout
certificate for a given check of what it extends, so the three levels share one
definition.

`verifyTipRounds_eq_ok` says what the loop over the signature groups of a timeout
certificate accepts, and `verifyQc_ok`, `verifyTcWith_eq_ok`, `verifyTip_ok` and
`verifySigned_ok` are what the protocol proofs use of a verified certificate.
-/

namespace MonadBft

open List

variable {T : Types} (env : Env T)

inductive Error where
  | invalidAuthor
  | notWellFormed
  | invalidSignature
  | invalidTcRound
  | duplicateTcTipRound
  | emptySignersTcTipRound
  | tooManyTcTipRound
  | insufficientStake
  | validatorSetDataUnavailable
  | signaturesDuplicateNode
  | invalidEpoch
  deriving DecidableEq

/-- The validators, their keys and the leader of a round. -/
abbrev EpochToValidators := ℕ → ℕ → Except Error (ValidatorSet × ValidatorMapping × NodeId)

/-- The validators of a round, if `epoch` is its epoch. -/
def epochToValidators (em : EpochManager) (vals : ValidatorsEpochMapping) : EpochToValidators :=
  fun epoch round =>
    match em.getEpoch round with
    | none => .error .invalidEpoch
    | some e =>
      if epoch ≠ e then .error .invalidEpoch
      else
        match vals epoch with
        | none => .error .validatorSetDataUnavailable
        | some (validators, mapping) => .ok (validators, mapping, env.getLeader round validators)

/-! ## Certificates -/

variable (validatorsOf : EpochToValidators)

/-- A supermajority of the stake signed. -/
def checkSuperMajority (validators : ValidatorSet) (nodeIds : List NodeId) : Except Error Unit :=
  match validators.hasSuperMajorityVotes nodeIds with
  | .error _ => .error .signaturesDuplicateNode
  | .ok false => .error .insufficientStake
  | .ok true => .ok ()

/-- The signers of `sigs` on `msg` are a supermajority. -/
def verifySigned (epoch round : ℕ) (sigs : T.SignatureCollection) (msg : SigningMessage T) :
    Except Error Unit := do
  let (validators, mapping, _) ← validatorsOf epoch round
  match env.verifyCollection sigs mapping msg with
  | none => .error .invalidSignature
  | some nodeIds => checkSuperMajority validators nodeIds

def verifyQc (qc : QuorumCertificate T) : Except Error Unit :=
  if qc.getRound = GENESIS_ROUND then do
    let _ ← validatorsOf qc.getEpoch qc.getRound
    if qc = env.genesisQc then .ok () else .error .invalidSignature
  else verifySigned env validatorsOf qc.getEpoch qc.getRound qc.signatures (.vote qc.info)

def verifyNec (nec : NoEndorsementCertificate T) : Except Error Unit :=
  verifySigned env validatorsOf nec.msg.epoch nec.msg.round nec.signatures (.noEndorsement nec.msg)

/-- What the loop over the signature groups of a timeout certificate has seen. -/
structure TipRoundsSeen where
  nodeIds : List NodeId
  highestRank : HighExtendRank
  tipRounds : List (ℕ × ℕ)

/-- What the signers of a group signed. -/
def HighTipRoundSigColTuple.tminfo (epoch round : ℕ) (t : HighTipRoundSigColTuple T) :
    TimeoutInfo :=
  { epoch, round, highQcRound := t.highQcRound, highTipRound := t.highTipRound }

/-- The loop of `verify_tc` over the signature groups. -/
def verifyTipRounds (mapping : ValidatorMapping) (epoch round : ℕ) :
    List (HighTipRoundSigColTuple T) → TipRoundsSeen → Except Error TipRoundsSeen
  | [], seen => .ok seen
  | t :: ts, seen =>
    if round ≤ t.highQcRound then .error .invalidTcRound
    else if (t.highQcRound, t.highTipRound) ∈ seen.tipRounds then .error .duplicateTcTipRound
    else if env.numSignatures t.sigs = 0 then .error .emptySignersTcTipRound
    else
      match env.verifyCollection t.sigs mapping (.timeout (t.tminfo epoch round)) with
      | none => .error .invalidSignature
      | some signers =>
        if (seen.nodeIds ++ signers).Nodup then
          verifyTipRounds mapping epoch round ts
            { nodeIds := seen.nodeIds ++ signers
              highestRank := if seen.highestRank < t.rank then t.rank else seen.highestRank
              tipRounds := seen.tipRounds ++ [(t.highQcRound, t.highTipRound)] }
        else .error .signaturesDuplicateNode

def TipRoundsSeen.empty : TipRoundsSeen := ⟨[], .qc GENESIS_ROUND, []⟩

/-- `verify_tc`, for a given check of what the certificate extends. -/
def verifyTcWith (verifyExtend : HighExtend T → Except Error Unit) (tc : TimeoutCertificate T) :
    Except Error Unit := do
  let (validators, mapping, _) ← validatorsOf tc.epoch tc.round
  if validators.getMembers.length < tc.tipRounds.length then .error .tooManyTcTipRound
  else do
    let seen ← verifyTipRounds env mapping tc.epoch tc.round tc.tipRounds .empty
    checkSuperMajority validators seen.nodeIds
    verifyExtend tc.highExtend
    if tc.highExtend.rank ≠ seen.highestRank then .error .notWellFormed else .ok ()

/-- A certificate without tip extends a QC. -/
def verifyQcExtend : HighExtend T → Except Error Unit
  | .qc qc => verifyQc env validatorsOf qc
  | .tip _ => .error .notWellFormed

/-- A certificate without tip is verified as the timeout certificate it came from. -/
def NoTipCertificate.toTc (noTip : NoTipCertificate T) : TimeoutCertificate T where
  epoch := noTip.epoch
  round := noTip.round
  tipRounds := noTip.tipRounds
  highExtend := .qc noTip.highQc

/-- The rounds of a tip's block, of its QC and of its certificate of freshness fit. -/
def tipRoundsFit (tip : ConsensusTip T) : Except Error Unit :=
  let header := tip.blockHeader
  if header.blockRound = header.qc.getRound + 1 then
    if tip.freshCertificate.isSome then .error .notWellFormed else .ok ()
  else
    match tip.freshCertificate with
    | none => .error .notWellFormed
    | some (.nec nec) =>
      if nec.msg.round ≠ header.blockRound then .error .notWellFormed
      else if nec.msg.tipQcRound ≠ header.qc.getRound then .error .notWellFormed
      else .ok ()
    | some (.noTip noTip) =>
      if header.blockRound ≠ noTip.round + 1 then .error .notWellFormed
      else if noTip.highQc.getRound ≠ header.qc.getRound then .error .notWellFormed
      else .ok ()

/-- The certificate of freshness verifies. -/
def verifyFresh : Option (FreshProposalCertificate T) → Except Error Unit
  | some (.nec nec) => verifyNec env validatorsOf nec
  | some (.noTip noTip) =>
    verifyTcWith env validatorsOf (verifyQcExtend env validatorsOf) noTip.toTc
  | none => .ok ()

def verifyTip (tip : ConsensusTip T) : Except Error Unit := do
  let header := tip.blockHeader
  let (_, _, leader) ← validatorsOf header.epoch header.blockRound
  match env.signatureAuthor header tip.signature with
  | none => .error .invalidSignature
  | some tipAuthor =>
    if tipAuthor ≠ leader ∨ tipAuthor ≠ header.author then .error .invalidAuthor
    else do
      tipRoundsFit tip
      verifyQc env validatorsOf header.qc
      verifyFresh env validatorsOf tip.freshCertificate

def verifyHighExtend : HighExtend T → Except Error Unit
  | .qc qc => verifyQc env validatorsOf qc
  | .tip tip => verifyTip env validatorsOf tip

def verifyTc (tc : TimeoutCertificate T) : Except Error Unit :=
  verifyTcWith env validatorsOf (verifyHighExtend env validatorsOf) tc

def verifyRoundCertificate : RoundCertificate T → Except Error Unit
  | .qc qc => verifyQc env validatorsOf qc
  | .tc tc => verifyTc env validatorsOf tc

/-! ## Messages -/

/-- The message's epoch is the local one for its round. -/
def verifyEpoch (em : EpochManager) (epoch round : ℕ) : Except Error Unit :=
  if em.getEpoch round = some epoch then .ok () else .error .invalidEpoch

namespace ProposalMessage

/-- A well-formed proposal carries a QC or TC from the round before. -/
def wellFormedProposal (p : ProposalMessage T) : Except Error Unit :=
  let header := p.tip.blockHeader
  if header.blockBodyId ≠ env.getBodyId p.blockBody then .error .notWellFormed
  else if p.proposalRound = header.qc.getRound + 1 then
    if p.lastRoundTc.isSome then .error .notWellFormed else .ok ()
  else
    match p.lastRoundTc with
    | none => .error .notWellFormed
    | some tc =>
      if p.proposalRound ≠ tc.round + 1 then .error .notWellFormed
      else
        match tc.highExtend with
        | .qc tcQc =>
          if tcQc.getRound ≠ header.qc.getRound then .error .notWellFormed else .ok ()
        | .tip tcTip =>
          if tcTip = p.tip then .ok ()
          else if p.proposalRound ≠ header.blockRound then .error .notWellFormed
          else if tcTip.blockHeader.qc.getRound ≠ header.qc.getRound then .error .notWellFormed
          else .ok ()

def validate (em : EpochManager) (p : ProposalMessage T) : Except Error Unit := do
  p.wellFormedProposal env
  verifyEpoch em p.proposalEpoch p.proposalRound
  verifyTip env validatorsOf p.tip
  match p.lastRoundTc with
  | none => .ok ()
  | some tc => verifyTc env validatorsOf tc

end ProposalMessage

def VoteMessage.validate (em : EpochManager) (m : VoteMessage T) : Except Error Unit :=
  if env.validateSignature m.sig then verifyEpoch em m.vote.epoch m.vote.round
  else .error .invalidSignature

namespace TimeoutMessage

/-- A well-formed timeout reports what it signs and carries a QC or TC from the round
before. -/
def wellFormedTimeout (timeout : TimeoutMessage T) : Except Error Unit :=
  if timeout.highExtend.rank ≠ timeout.tminfo.rank then .error .notWellFormed
  else if timeout.tminfo.round = timeout.highExtend.getQc.getRound + 1 then
    if timeout.lastRoundCertificate.isSome then .error .notWellFormed else .ok ()
  else
    match timeout.lastRoundCertificate with
    | none => .error .notWellFormed
    | some cert => if timeout.tminfo.round ≠ cert.round + 1 then .error .notWellFormed else .ok ()

/-- The certificate of the round before verifies, if there is one. -/
def verifyLastRound : Option (RoundCertificate T) → Except Error Unit
  | none => .ok ()
  | some cert => verifyRoundCertificate env validatorsOf cert

def validate (em : EpochManager) (timeout : TimeoutMessage T) : Except Error Unit :=
  if env.validateSignature timeout.timeoutSignature then do
    timeout.wellFormedTimeout
    verifyEpoch em timeout.tminfo.epoch timeout.tminfo.round
    verifyLastRound env validatorsOf timeout.lastRoundCertificate
    verifyHighExtend env validatorsOf timeout.highExtend.toHighExtend
  else .error .invalidSignature

end TimeoutMessage

namespace RoundRecoveryMessage

def wellFormedRoundRecovery (m : RoundRecoveryMessage T) : Except Error Unit :=
  if m.round ≠ m.tc.round + 1 then .error .invalidTcRound
  else
    match m.tc.highExtend with
    | .qc _ => .error .notWellFormed
    | .tip _ => .ok ()

def validate (em : EpochManager) (m : RoundRecoveryMessage T) : Except Error Unit := do
  m.wellFormedRoundRecovery
  verifyEpoch em m.epoch m.round
  verifyTc env validatorsOf m.tc

end RoundRecoveryMessage

def NoEndorsementMessage.validate (em : EpochManager) (m : NoEndorsementMessage T) :
    Except Error Unit :=
  if env.validateSignature m.signature then verifyEpoch em m.msg.epoch m.msg.round
  else .error .invalidSignature

def AdvanceRoundMessage.validate (m : AdvanceRoundMessage T) : Except Error Unit :=
  verifyRoundCertificate env validatorsOf m.lastRoundCertificate

namespace ProtocolMessage

/-- The round whose validators may send the message. -/
def getRound : ProtocolMessage T → ℕ
  | proposal m => m.proposalRound
  | vote m => m.vote.round
  | timeout m => m.tminfo.round
  | roundRecovery m => m.round
  | noEndorsement m => m.msg.round
  | advanceRound m => m.lastRoundCertificate.round

def validate (em : EpochManager) : ProtocolMessage T → Except Error Unit
  | proposal m => m.validate env validatorsOf em
  | vote m => m.validate env em
  | timeout m => m.validate env validatorsOf em
  | roundRecovery m => m.validate env validatorsOf em
  | noEndorsement m => m.validate env em
  | advanceRound m => m.validate env validatorsOf

/-- The author is a validator of the message's round. -/
def verifyAuthor (em : EpochManager) (vals : ValidatorsEpochMapping) (author : NodeId)
    (m : ProtocolMessage T) : Except Error Unit :=
  match em.getEpoch m.getRound with
  | none => .error .invalidEpoch
  | some epoch =>
    match vals epoch with
    | none => .error .validatorSetDataUnavailable
    | some (validators, _) => if validators.isMember author then .ok () else .error .invalidAuthor

end ProtocolMessage

/-! ## What verification establishes -/

section Verified

variable {env} {validatorsOf} {mapping : ValidatorMapping} {epoch round : ℕ} {em : EpochManager}
  {vals : ValidatorsEpochMapping} {validators : ValidatorSet} {qc : QuorumCertificate T}
  {tc : TimeoutCertificate T} {tip : ConsensusTip T} {p : ProposalMessage T} {m : TimeoutMessage T}

theorem checkSuperMajority_eq_ok {nodeIds : List NodeId} :
    checkSuperMajority validators nodeIds = .ok () ↔
      validators.hasSuperMajorityVotes nodeIds = .ok true := by
  unfold checkSuperMajority
  split <;> simp_all

/-- A verified QC of a round after genesis is signed by a supermajority. -/
theorem verifyQc_ok (h : verifyQc env validatorsOf qc = .ok ()) :
    (qc.getRound = GENESIS_ROUND ∧ qc = env.genesisQc) ∨
      (qc.getRound ≠ GENESIS_ROUND ∧
        verifySigned env validatorsOf qc.getEpoch qc.getRound qc.signatures (.vote qc.info) =
          .ok ()) := by
  unfold verifyQc at h
  split at h
  next hr =>
    obtain ⟨_, _, h⟩ := bind_eq_ok.mp h
    split at h
    next hg => exact .inl ⟨hr, hg⟩
    · cases h
  next hr => exact .inr ⟨hr, h⟩

theorem verifySigned_ok {sigs : T.SignatureCollection} {msg : SigningMessage T} {leader : NodeId}
    (hval : validatorsOf epoch round = .ok (validators, mapping, leader))
    (h : verifySigned env validatorsOf epoch round sigs msg = .ok ()) :
    ∃ signers, env.verifyCollection sigs mapping msg = some signers ∧
      validators.hasSuperMajorityVotes signers = .ok true := by
  unfold verifySigned at h
  rw [hval, except_ok_bind] at h
  dsimp only at h
  split at h
  · cases h
  next signers hsigners => exact ⟨signers, hsigners, checkSuperMajority_eq_ok.mp h⟩

/-- The signers of a group of a timeout certificate. -/
def signersOf (env : Env T) (mapping : ValidatorMapping) (epoch round : ℕ)
    (t : HighTipRoundSigColTuple T) : List NodeId :=
  (env.verifyCollection t.sigs mapping (.timeout (t.tminfo epoch round))).getD []

/-- What the loop requires of one group. -/
structure GroupOk (env : Env T) (mapping : ValidatorMapping) (epoch round : ℕ)
    (t : HighTipRoundSigColTuple T) : Prop where
  qcRound_lt : t.highQcRound < round
  signed : env.numSignatures t.sigs ≠ 0
  verified : env.verifyCollection t.sigs mapping (.timeout (t.tminfo epoch round)) =
    some (signersOf env mapping epoch round t)

/-- The loop accepts exactly the groups that are each in order, report distinct pairs
of rounds and have no signer in common, and it computes their highest rank. -/
theorem verifyTipRounds_eq_ok {ts : List (HighTipRoundSigColTuple T)} {seen seen' : TipRoundsSeen}
    (hids : seen.nodeIds.Nodup) (hpairs : seen.tipRounds.Nodup) :
    verifyTipRounds env mapping epoch round ts seen = .ok seen' ↔
      (∀ t ∈ ts, GroupOk env mapping epoch round t) ∧
      (seen.tipRounds ++ ts.map fun t => (t.highQcRound, t.highTipRound)).Nodup ∧
      (seen.nodeIds ++ ts.flatMap (signersOf env mapping epoch round)).Nodup ∧
      seen' = { nodeIds := seen.nodeIds ++ ts.flatMap (signersOf env mapping epoch round)
                highestRank := ts.foldl (fun r t => max r t.rank) seen.highestRank
                tipRounds := seen.tipRounds ++ ts.map fun t => (t.highQcRound, t.highTipRound) } := by
  induction ts generalizing seen with
  | nil => simp [verifyTipRounds, hids, hpairs, eq_comm]
  | cons t ts ih =>
    unfold verifyTipRounds
    have hmax : (if seen.highestRank < t.rank then t.rank else seen.highestRank) =
        max seen.highestRank t.rank := by
      split
      next hlt => exact (max_eq_right hlt.le).symm
      next hlt => exact (max_eq_left (not_lt.mp hlt)).symm
    rw [hmax]
    split_ifs with hround hpair hnum
    · simp only [false_iff]
      rintro ⟨hok, -⟩
      exact absurd (hok t (by simp)).qcRound_lt (by omega)
    · simp only [false_iff]
      rintro ⟨-, hnd, -⟩
      simp only [map_cons, nodup_append, mem_cons] at hnd
      exact hnd.2.2 _ hpair _ (.inl rfl) rfl
    · simp only [false_iff]
      rintro ⟨hok, -⟩
      exact (hok t (by simp)).signed hnum
    · rcases hc : env.verifyCollection t.sigs mapping (.timeout (t.tminfo epoch round)) with
        _ | signers
      · simp only [reduceCtorEq, false_iff]
        rintro ⟨hok, -⟩
        have := (hok t (by simp)).verified
        rw [hc] at this
        cases this
      · have hs : signersOf env mapping epoch round t = signers := by simp [signersOf, hc]
        have hgroup : GroupOk env mapping epoch round t := ⟨by omega, hnum, by rw [hs]; exact hc⟩
        have hpairs' : (seen.tipRounds ++ [(t.highQcRound, t.highTipRound)]).Nodup :=
          nodup_append.mpr ⟨hpairs, by simp, by
            intro a ha b hb hab
            exact hpair (by rw [← mem_singleton.mp hb, ← hab]; exact ha)⟩
        dsimp only
        split_ifs with hnd
        · rw [ih hnd hpairs']
          simp only [mem_cons, forall_eq_or_imp, hgroup, true_and, map_cons,
            flatMap_cons, foldl_cons, hs, append_assoc, cons_append,
            nil_append]
        · simp only [false_iff]
          rintro ⟨-, -, hnd', -⟩
          rw [flatMap_cons, hs, ← append_assoc] at hnd'
          exact hnd (nodup_append.mp hnd').1

/-- What a verified timeout certificate establishes. -/
structure TcOk (env : Env T) (validatorsOf : EpochToValidators)
    (verifyExtend : HighExtend T → Except Error Unit) (tc : TimeoutCertificate T) : Prop where
  signed : ∃ validators mapping leader,
    validatorsOf tc.epoch tc.round = .ok (validators, mapping, leader) ∧
    tc.tipRounds.length ≤ validators.getMembers.length ∧
    (∀ t ∈ tc.tipRounds, GroupOk env mapping tc.epoch tc.round t) ∧
    (tc.tipRounds.flatMap (signersOf env mapping tc.epoch tc.round)).Nodup ∧
    validators.hasSuperMajorityVotes
      (tc.tipRounds.flatMap (signersOf env mapping tc.epoch tc.round)) = .ok true
  distinct : (tc.tipRounds.map fun t => (t.highQcRound, t.highTipRound)).Nodup
  extend : verifyExtend tc.highExtend = .ok ()
  rank_eq : tc.highExtend.rank = tc.tipRounds.foldl (fun r t => max r t.rank) (.qc GENESIS_ROUND)

theorem verifyTcWith_eq_ok {verifyExtend : HighExtend T → Except Error Unit} :
    verifyTcWith env validatorsOf verifyExtend tc = .ok () ↔
      TcOk env validatorsOf verifyExtend tc := by
  have hempty : ∀ mapping seen', verifyTipRounds env mapping tc.epoch tc.round tc.tipRounds
      .empty = .ok seen' ↔ _ := fun mapping seen' =>
    verifyTipRounds_eq_ok (by simp [TipRoundsSeen.empty]) (by simp [TipRoundsSeen.empty])
  constructor
  · intro h
    obtain ⟨⟨validators, mapping, leader⟩, hv, h⟩ := bind_eq_ok.mp h
    dsimp only at h
    split at h
    · cases h
    next hlen =>
      obtain ⟨seen, hseen, h⟩ := bind_eq_ok.mp h
      obtain ⟨_, hmaj, h⟩ := bind_eq_ok.mp h
      obtain ⟨_, hext, h⟩ := bind_eq_ok.mp h
      obtain ⟨hgroups, hpairs, hids, rfl⟩ := (hempty _ _).mp hseen
      split at h
      · cases h
      next hrank =>
        exact ⟨⟨validators, mapping, leader, hv, not_lt.mp hlen, hgroups, hids,
          checkSuperMajority_eq_ok.mp hmaj⟩, hpairs, hext, not_not.mp hrank⟩
  · rintro ⟨⟨validators, mapping, leader, hv, hlen, hgroups, hids, hmaj⟩, hpairs, hext, hrank⟩
    have hseen := (hempty mapping _).mpr ⟨hgroups, by simpa [TipRoundsSeen.empty] using hpairs,
      by simpa [TipRoundsSeen.empty] using hids, rfl⟩
    refine bind_eq_ok.mpr ⟨_, hv, ?_⟩
    simp only [not_lt.mpr hlen, if_false]
    refine bind_eq_ok.mpr ⟨_, hseen, ?_⟩
    simp only [TipRoundsSeen.empty, nil_append]
    refine bind_eq_ok.mpr ⟨_, checkSuperMajority_eq_ok.mpr hmaj, ?_⟩
    exact bind_eq_ok.mpr ⟨_, hext, by simp [hrank]⟩

/-- The highest rank in a list is the starting one or that of a member. -/
theorem foldl_max_rank (ts : List (HighTipRoundSigColTuple T)) (r₀ : HighExtendRank) :
    (ts.foldl (fun r t => max r t.rank) r₀ = r₀ ∨
        ∃ t ∈ ts, ts.foldl (fun r t => max r t.rank) r₀ = t.rank) ∧
      r₀ ≤ ts.foldl (fun r t => max r t.rank) r₀ ∧
      ∀ t ∈ ts, t.rank ≤ ts.foldl (fun r t => max r t.rank) r₀ := by
  induction ts generalizing r₀ with
  | nil => simp
  | cons t ts ih =>
    obtain ⟨hmem, hle, hall⟩ := ih (max r₀ t.rank)
    simp only [foldl_cons, mem_cons, forall_eq_or_imp, exists_eq_or_imp]
    refine ⟨?_, (le_max_left _ _).trans hle, (le_max_right _ _).trans hle, hall⟩
    rcases hmem with h | h
    · rcases max_choice r₀ t.rank with hm | hm
      · exact .inl (h.trans hm)
      · exact .inr (.inl (h.trans hm))
    · exact .inr (.inr h)

namespace TcOk

variable {verifyExtend : HighExtend T → Except Error Unit} {tc : TimeoutCertificate T}

theorem exists_tipRound (h : TcOk env validatorsOf verifyExtend tc) :
    ∃ t ∈ tc.tipRounds, t.highQcRound < tc.round := by
  obtain ⟨validators, mapping, leader, -, -, hgroups, -, hmaj⟩ := h.signed
  have hne := validators.ne_nil_of_hasSuperMajorityVotes hmaj
  rcases htc : tc.tipRounds with _ | ⟨t, ts⟩
  · rw [htc] at hne
    exact absurd rfl hne
  · exact ⟨t, by simp, (hgroups t (by simp [htc])).qcRound_lt⟩

/-- A timeout certificate extends a QC of an earlier round. -/
theorem qcRound_lt (h : TcOk env validatorsOf verifyExtend tc) :
    tc.highExtend.getQc.getRound < tc.round := by
  rw [← HighExtend.qcRound_rank, h.rank_eq]
  rcases (foldl_max_rank tc.tipRounds (.qc GENESIS_ROUND)).1 with hr | ⟨t, ht, hr⟩
  · obtain ⟨t, -, hlt⟩ := h.exists_tipRound
    rw [hr]
    exact Nat.lt_of_le_of_lt (Nat.zero_le _) hlt
  · obtain ⟨validators, mapping, leader, -, -, hgroups, -⟩ := h.signed
    rw [hr, HighTipRoundSigColTuple.rank, HighExtendRank.qcRound_ofRounds]
    exact (hgroups t ht).qcRound_lt

end TcOk

/-- The three ways a tip's block extends its QC. -/
theorem tipRoundsFit_ok (h : tipRoundsFit tip = .ok ()) :
    (tip.blockHeader.blockRound = tip.blockHeader.qc.getRound + 1 ∧ tip.freshCertificate = none) ∨
    (∃ nec, tip.freshCertificate = some (.nec nec) ∧ nec.msg.round = tip.blockHeader.blockRound ∧
      nec.msg.tipQcRound = tip.blockHeader.qc.getRound) ∨
    (∃ noTip, tip.freshCertificate = some (.noTip noTip) ∧
      tip.blockHeader.blockRound = noTip.round + 1 ∧
      noTip.highQc.getRound = tip.blockHeader.qc.getRound) := by
  unfold tipRoundsFit at h
  dsimp only at h
  split at h
  next hcons =>
    split at h
    · cases h
    next hfresh => exact .inl ⟨hcons, by simpa using hfresh⟩
  · split at h
    · cases h
    next nec hfresh =>
      split_ifs at h with hround hqc
      exact .inr (.inl ⟨nec, hfresh, not_not.mp hround, not_not.mp hqc⟩)
    next noTip hfresh =>
      split_ifs at h with hround hqc
      exact .inr (.inr ⟨noTip, hfresh, not_not.mp hround, not_not.mp hqc⟩)

theorem verifyTip_ok (h : verifyTip env validatorsOf tip = .ok ()) :
    tipRoundsFit tip = .ok () ∧ verifyQc env validatorsOf tip.blockHeader.qc = .ok () ∧
      verifyFresh env validatorsOf tip.freshCertificate = .ok () := by
  obtain ⟨_, _, h⟩ := bind_eq_ok.mp h
  dsimp only at h
  split at h
  · cases h
  split at h
  · cases h
  · obtain ⟨_, hfit, h⟩ := bind_eq_ok.mp h
    obtain ⟨_, hqc, hfresh⟩ := bind_eq_ok.mp h
    exact ⟨hfit, hqc, hfresh⟩

theorem verifyHighExtend_qc {high : HighExtend T}
    (h : verifyHighExtend env validatorsOf high = .ok ()) :
    verifyQc env validatorsOf high.getQc = .ok () := by
  cases high with
  | qc q => exact h
  | tip t => exact (verifyTip_ok h).2.1

theorem verifyTc_eq_ok :
    verifyTc env validatorsOf tc = .ok () ↔
      TcOk env validatorsOf (verifyHighExtend env validatorsOf) tc :=
  verifyTcWith_eq_ok

/-- A certificate carries a QC of its own round, if it is one, or of an earlier round. -/
theorem qcRound_le_of_verifyRoundCertificate {cert : RoundCertificate T}
    (h : verifyRoundCertificate env validatorsOf cert = .ok ()) :
    cert.getQc.getRound ≤ cert.round := by
  cases cert with
  | qc q => exact le_rfl
  | tc tc => exact (verifyTc_eq_ok.mp h).qcRound_lt.le

/-! ### Messages -/

/-- The ways a proposal's certificates prove its round: the QC of the round before, or
a timeout certificate of the round before whose QC is the proposal's. In the second
case the tip is any tip on that QC if the certificate extends a QC, and otherwise the
certificate's own tip or a fresh one. -/
theorem ProposalMessage.wellFormedProposal_ok (h : p.wellFormedProposal env = .ok ()) :
    p.tip.blockHeader.blockBodyId = env.getBodyId p.blockBody ∧
    ((p.proposalRound = p.tip.blockHeader.qc.getRound + 1 ∧ p.lastRoundTc = none) ∨
      ∃ tc, p.lastRoundTc = some tc ∧ p.proposalRound = tc.round + 1 ∧
        tc.highExtend.getQc.getRound = p.tip.blockHeader.qc.getRound ∧
        ((∃ qc, tc.highExtend = .qc qc) ∨ tc.highExtend = .tip p.tip ∨
          ∃ tip, tc.highExtend = .tip tip ∧ p.proposalRound = p.tip.blockHeader.blockRound)) := by
  unfold wellFormedProposal at h
  dsimp only at h
  split at h
  · cases h
  next hbody =>
  refine ⟨not_not.mp hbody, ?_⟩
  split at h
  next hcons =>
    split at h
    · cases h
    next htc => exact .inl ⟨hcons, by simpa using htc⟩
  · split at h
    · cases h
    next tc htc =>
    refine .inr ⟨tc, htc, ?_⟩
    split at h
    · cases h
    next hround =>
    refine ⟨not_not.mp hround, ?_⟩
    split at h
    next qc hext =>
      split at h
      · cases h
      next hqc =>
      exact ⟨by rw [hext]; exact not_not.mp hqc, .inl ⟨qc, hext⟩⟩
    next tip hext =>
      split at h
      next htip =>
        subst htip
        exact ⟨by rw [hext]; rfl, .inr (.inl hext)⟩
      · split_ifs at h with hblock hqc
        exact ⟨by rw [hext]; exact not_not.mp hqc, .inr (.inr ⟨tip, hext, not_not.mp hblock⟩)⟩

theorem ProposalMessage.validate_ok (h : p.validate env validatorsOf em = .ok ()) :
    p.wellFormedProposal env = .ok () ∧ verifyTip env validatorsOf p.tip = .ok () ∧
      ∀ tc, p.lastRoundTc = some tc → verifyTc env validatorsOf tc = .ok () := by
  obtain ⟨_, hform, h⟩ := bind_eq_ok.mp h
  obtain ⟨_, -, h⟩ := bind_eq_ok.mp h
  obtain ⟨_, htip, h⟩ := bind_eq_ok.mp h
  refine ⟨hform, htip, fun tc htc => ?_⟩
  simpa [htc] using h

/-- A validated proposal extends a QC of an earlier round. -/
theorem ProposalMessage.qcRound_lt (h : p.validate env validatorsOf em = .ok ()) :
    p.tip.blockHeader.qc.getRound < p.proposalRound := by
  obtain ⟨hform, -, htc⟩ := validate_ok h
  rcases (wellFormedProposal_ok hform).2 with ⟨hcons, -⟩ | ⟨tc, hsome, hround, hqc, -⟩
  · omega
  · have := (verifyTc_eq_ok.mp (htc tc hsome)).qcRound_lt
    omega

theorem TimeoutMessage.wellFormedTimeout_ok (h : m.wellFormedTimeout = .ok ()) :
    m.highExtend.rank = m.tminfo.rank ∧
    ((m.tminfo.round = m.highExtend.getQc.getRound + 1 ∧ m.lastRoundCertificate = none) ∨
      ∃ cert, m.lastRoundCertificate = some cert ∧ m.tminfo.round = cert.round + 1) := by
  unfold wellFormedTimeout at h
  split at h
  · cases h
  next hrank =>
  refine ⟨not_not.mp hrank, ?_⟩
  split at h
  next hcons =>
    split at h
    · cases h
    next hcert => exact .inl ⟨hcons, by simpa using hcert⟩
  · split at h
    · cases h
    next cert hcert =>
      split at h
      · cases h
      next hround => exact .inr ⟨cert, hcert, not_not.mp hround⟩

theorem TimeoutMessage.validate_ok (h : m.validate env validatorsOf em = .ok ()) :
    m.wellFormedTimeout = .ok () ∧ em.getEpoch m.tminfo.round = some m.tminfo.epoch ∧
      (∀ cert, m.lastRoundCertificate = some cert →
        verifyRoundCertificate env validatorsOf cert = .ok ()) ∧
      verifyHighExtend env validatorsOf m.highExtend.toHighExtend = .ok () := by
  unfold validate at h
  split at h
  · obtain ⟨_, hform, h⟩ := bind_eq_ok.mp h
    obtain ⟨_, hepoch, h⟩ := bind_eq_ok.mp h
    obtain ⟨_, hcert, hext⟩ := bind_eq_ok.mp h
    refine ⟨hform, ?_, fun cert hsome => ?_, hext⟩
    · unfold verifyEpoch at hepoch
      split at hepoch
      · assumption
      · cases hepoch
    · simpa [hsome, verifyLastRound] using hcert
  · cases h

theorem RoundRecoveryMessage.validate_ok {m : RoundRecoveryMessage T}
    (h : m.validate env validatorsOf em = .ok ()) :
    m.round = m.tc.round + 1 ∧ verifyTc env validatorsOf m.tc = .ok () := by
  obtain ⟨_, hform, h⟩ := bind_eq_ok.mp h
  obtain ⟨_, -, htc⟩ := bind_eq_ok.mp h
  refine ⟨?_, htc⟩
  unfold wellFormedRoundRecovery at hform
  split at hform
  · cases hform
  next hround => exact not_not.mp hround

/-- The author of an admitted message is a validator of its round. -/
theorem ProtocolMessage.verifyAuthor_ok {author : NodeId} {m : ProtocolMessage T}
    (h : m.verifyAuthor em vals author = .ok ()) :
    ∃ epoch validators mapping, em.getEpoch m.getRound = some epoch ∧
      vals epoch = some (validators, mapping) ∧ author ∈ validators.getMembers := by
  unfold verifyAuthor at h
  split at h
  · cases h
  next epoch hepoch =>
  split at h
  · cases h
  next validators mapping hvals =>
  split at h
  next hmem => exact ⟨epoch, validators, mapping, hepoch, hvals, of_decide_eq_true hmem⟩
  · cases h

theorem epochToValidators_eq (hepoch : em.getEpoch round = some epoch)
    (hvals : vals epoch = some (validators, mapping)) :
    epochToValidators env em vals epoch round =
      .ok (validators, mapping, env.getLeader round validators) := by
  simp [epochToValidators, hepoch, hvals]

theorem getEpoch_of_epochToValidators {v : ValidatorSet × ValidatorMapping × NodeId}
    (h : epochToValidators env em vals epoch round = .ok v) : em.getEpoch round = some epoch := by
  unfold epochToValidators at h
  split at h
  · cases h
  next e he =>
  split at h
  · cases h
  next heq => rw [he, not_not.mp heq]

/-- A verified QC is of the epoch of its round. -/
theorem getEpoch_of_verifyQc (h : verifyQc env (epochToValidators env em vals) qc = .ok ()) :
    em.getEpoch qc.getRound = some qc.getEpoch := by
  unfold verifyQc verifySigned at h
  split at h
  all_goals
    obtain ⟨v, hv, -⟩ := bind_eq_ok.mp h
    exact getEpoch_of_epochToValidators hv

end Verified

end MonadBft
