import Mathlib.Order.Lattice
import Mathlib.Tactic.Linarith

/-!
# Votes, certificates, tips and messages

The data the protocol moves: votes and the quorum certificates made of them
(`QuorumCertificate`), block headers and the tips that carry them (`ConsensusTip`),
timeouts and the timeout certificates made of them (`TimeoutCertificate`),
no-endorsements, and the messages nodes exchange.

A timeout certificate extends the highest tip or QC its signers reported.
`HighExtendRank` orders those reports. `HighExtendRank.cmp` is the comparison of
`timeout.rs`; the order it induces is total (the `LinearOrder` instance), and its
four cases are `qc_le_qc`, `tip_le_tip`, `qc_le_tip` and `tip_le_qc`.

Rounds, epochs, sequence numbers and stakes are natural numbers. What the protocol
only compares (block ids, signatures, bodies and the execution inputs of a header)
is abstract, collected in `Types`.
-/

namespace MonadBft

/-- A node's public key, numbered. -/
abbrev NodeId := ℕ

def GENESIS_ROUND : ℕ := 0

/-- The sequence number of the genesis block. -/
def GENESIS_SEQ_NUM : ℕ := 0

/-- The types the protocol is generic in. -/
structure Types where
  /-- The hash of a block header. -/
  BlockId : Type
  /-- One validator's signature on a vote, timeout or no-endorsement. -/
  SignatureType : Type
  /-- An aggregate of such signatures. -/
  SignatureCollection : Type
  /-- A proposer's signature on a block header. -/
  HeaderSignature : Type
  /-- The hash of a block body. -/
  BlockBodyId : Type
  /-- The body of a block. -/
  BlockBody : Type
  /-- The header fields consensus only passes on: round signature, delayed execution
  results, execution inputs and base fee. -/
  ExecutionInputs : Type
  [blockIdEq : DecidableEq BlockId]
  [signatureEq : DecidableEq SignatureType]
  [collectionEq : DecidableEq SignatureCollection]
  [headerSignatureEq : DecidableEq HeaderSignature]
  [bodyIdEq : DecidableEq BlockBodyId]
  [bodyEq : DecidableEq BlockBody]
  [inputsEq : DecidableEq ExecutionInputs]

attribute [instance] Types.blockIdEq Types.signatureEq Types.collectionEq
  Types.headerSignatureEq Types.bodyIdEq Types.bodyEq Types.inputsEq

variable (T : Types)

/-! ## Votes, quorum certificates and headers -/

structure Vote where
  /-- The proposed block. -/
  id : T.BlockId
  round : ℕ
  epoch : ℕ
  deriving DecidableEq

/-- Aggregated votes for one block in one round. -/
structure QuorumCertificate where
  info : Vote T
  signatures : T.SignatureCollection
  deriving DecidableEq

/-- A block header. `qc` certifies the parent block. -/
structure ConsensusBlockHeader where
  /-- The round the block was proposed in. -/
  blockRound : ℕ
  epoch : ℕ
  qc : QuorumCertificate T
  author : NodeId
  seqNum : ℕ
  timestampNs : ℕ
  blockBodyId : T.BlockBodyId
  executionInputs : T.ExecutionInputs
  deriving DecidableEq

variable {T}

def QuorumCertificate.getRound (qc : QuorumCertificate T) : ℕ := qc.info.round

def QuorumCertificate.getEpoch (qc : QuorumCertificate T) : ℕ := qc.info.epoch

def QuorumCertificate.getBlockId (qc : QuorumCertificate T) : T.BlockId := qc.info.id

def ConsensusBlockHeader.getParentId (header : ConsensusBlockHeader T) : T.BlockId :=
  header.qc.getBlockId

/-! ## The order on what a timeout extends -/

/-- What a timeout reports: the highest tip the node voted for, or its highest QC. -/
inductive HighExtendRank where
  | tip (tipRound qcRound : ℕ)
  | qc (qcRound : ℕ)
  deriving DecidableEq

namespace HighExtendRank

/-- A QC of round `r` is above every tip of round `r`, and tips of one round are
compared by the round of their QC. -/
def cmp : HighExtendRank → HighExtendRank → Ordering
  | qc q₁, qc q₂ => compare q₁ q₂
  | tip t₁ q₁, tip t₂ q₂ => if t₁ ≠ t₂ then compare t₁ t₂ else compare q₁ q₂
  | qc q₁, tip t₂ _ => if q₁ = t₂ then .gt else compare q₁ t₂
  | tip t₁ _, qc q₂ => if t₁ = q₂ then .lt else compare t₁ q₂

instance : LE HighExtendRank := ⟨fun a b => cmp a b ≠ .gt⟩

instance : LT HighExtendRank := ⟨fun a b => cmp a b = .lt⟩

theorem le_def (a b : HighExtendRank) : a ≤ b ↔ cmp a b ≠ .gt := Iff.rfl

theorem lt_def (a b : HighExtendRank) : a < b ↔ cmp a b = .lt := Iff.rfl

instance (a b : HighExtendRank) : Decidable (a ≤ b) := inferInstanceAs (Decidable (_ ≠ _))

instance (a b : HighExtendRank) : Decidable (a < b) := inferInstanceAs (Decidable (_ = _))

@[simp] theorem qc_le_qc (q₁ q₂ : ℕ) : qc q₁ ≤ qc q₂ ↔ q₁ ≤ q₂ := by
  simp [le_def, cmp, Nat.compare_eq_gt]

@[simp] theorem tip_le_tip (t₁ q₁ t₂ q₂ : ℕ) :
    tip t₁ q₁ ≤ tip t₂ q₂ ↔ t₁ < t₂ ∨ (t₁ = t₂ ∧ q₁ ≤ q₂) := by
  by_cases h : t₁ = t₂
  · simp [le_def, cmp, h, Nat.compare_eq_gt]
  · simp only [le_def, cmp, h, ne_eq, not_false_eq_true, if_true, Nat.compare_eq_gt, false_and,
      or_false]
    omega

@[simp] theorem qc_le_tip (q₁ t₂ q₂ : ℕ) : qc q₁ ≤ tip t₂ q₂ ↔ q₁ < t₂ := by
  by_cases h : q₁ = t₂
  · simp [le_def, cmp, h]
  · simp only [le_def, cmp, h, if_false, ne_eq, Nat.compare_eq_gt]
    omega

@[simp] theorem tip_le_qc (t₁ q₁ q₂ : ℕ) : tip t₁ q₁ ≤ qc q₂ ↔ t₁ ≤ q₂ := by
  by_cases h : t₁ = q₂
  · simp [le_def, cmp, h]
  · simp only [le_def, cmp, h, if_false, ne_eq, Nat.compare_eq_gt]
    omega

theorem lt_iff (a b : HighExtendRank) : a < b ↔ a ≤ b ∧ ¬ b ≤ a := by
  rcases a with ⟨t₁, q₁⟩ | q₁ <;> rcases b with ⟨t₂, q₂⟩ | q₂
  · by_cases h : t₁ = t₂ <;> simp [lt_def, cmp, h, Nat.compare_eq_lt] <;> omega
  · by_cases h : t₁ = q₂
    · simp [lt_def, cmp, h]
    · simp only [lt_def, cmp, h, if_false, Nat.compare_eq_lt, tip_le_qc, qc_le_tip]
      omega
  · by_cases h : q₁ = t₂
    · simp [lt_def, cmp, h]
    · simp only [lt_def, cmp, h, if_false, Nat.compare_eq_lt, tip_le_qc, qc_le_tip]
      omega
  · simp only [lt_def, cmp, Nat.compare_eq_lt, qc_le_qc]
    omega

/-- The rank order is total. -/
instance : LinearOrder HighExtendRank where
  le_refl a := by rcases a with ⟨t, q⟩ | q <;> simp
  le_trans a b c := by
    rcases a with ⟨t₁, q₁⟩ | q₁ <;> rcases b with ⟨t₂, q₂⟩ | q₂ <;>
      rcases c with ⟨t₃, q₃⟩ | q₃ <;> simp <;> omega
  le_antisymm a b := by
    rcases a with ⟨t₁, q₁⟩ | q₁ <;> rcases b with ⟨t₂, q₂⟩ | q₂ <;> simp <;> omega
  le_total a b := by
    rcases a with ⟨t₁, q₁⟩ | q₁ <;> rcases b with ⟨t₂, q₂⟩ | q₂ <;> simp <;> omega
  lt_iff_le_not_ge := lt_iff
  toDecidableLE := inferInstance
  toDecidableEq := inferInstance
  toDecidableLT := inferInstance

/-- The round of the QC a report of this rank is built on. -/
def qcRound : HighExtendRank → ℕ
  | tip _ q => q
  | qc q => q

/-- Two rounds as timeouts encode them: a tip of round `GENESIS_ROUND` is no tip. -/
def ofRounds (highQcRound highTipRound : ℕ) : HighExtendRank :=
  if highTipRound = GENESIS_ROUND then qc highQcRound else tip highTipRound highQcRound

@[simp] theorem qcRound_ofRounds (q t : ℕ) : (ofRounds q t).qcRound = q := by
  unfold ofRounds
  split <;> rfl

/-- Nothing a timeout encodes is below the genesis QC. -/
theorem qc_genesis_le_ofRounds (q t : ℕ) : qc GENESIS_ROUND ≤ ofRounds q t := by
  unfold ofRounds
  split
  · exact (qc_le_qc _ _).mpr (Nat.zero_le q)
  next ht => exact (qc_le_tip _ _ _).mpr (Nat.pos_of_ne_zero ht)

end HighExtendRank

/-! ## Timeouts -/

/-- What a validator signs when it gives up on a round. -/
structure TimeoutInfo where
  epoch : ℕ
  /-- The round that timed out. -/
  round : ℕ
  /-- The QC round of what the node extends. -/
  highQcRound : ℕ
  /-- The round of the highest tip the node voted for, or `GENESIS_ROUND`. -/
  highTipRound : ℕ
  deriving DecidableEq

def TimeoutInfo.rank (tminfo : TimeoutInfo) : HighExtendRank :=
  .ofRounds tminfo.highQcRound tminfo.highTipRound

/-- What a validator signs when it cannot vouch for the tip a leader asks about. -/
structure NoEndorsement where
  epoch : ℕ
  round : ℕ
  /-- The QC round of the tip that is not endorsed. -/
  tipQcRound : ℕ
  deriving DecidableEq

variable (T)

/-- The signatures of the timeouts of one round that report one pair of rounds. -/
structure HighTipRoundSigColTuple where
  highQcRound : ℕ
  highTipRound : ℕ
  sigs : T.SignatureCollection
  deriving DecidableEq

/-- Aggregated no-endorsements: the tip asked about may be skipped. -/
structure NoEndorsementCertificate where
  msg : NoEndorsement
  signatures : T.SignatureCollection
  deriving DecidableEq

/-- A timeout certificate whose signers report no tip above `highQc`. -/
structure NoTipCertificate where
  epoch : ℕ
  round : ℕ
  tipRounds : List (HighTipRoundSigColTuple T)
  highQc : QuorumCertificate T
  deriving DecidableEq

/-- Why a proposal that does not extend the last round's QC may be fresh. -/
inductive FreshProposalCertificate where
  | nec (nec : NoEndorsementCertificate T)
  | noTip (noTip : NoTipCertificate T)
  deriving DecidableEq

/-- A block header with its proposer's signature and the certificate of freshness. -/
structure ConsensusTip where
  blockHeader : ConsensusBlockHeader T
  signature : T.HeaderSignature
  freshCertificate : Option (FreshProposalCertificate T)
  deriving DecidableEq

/-- The highest tip reported in a round, or the highest QC if no tip is above it. -/
inductive HighExtend where
  | tip (tip : ConsensusTip T)
  | qc (qc : QuorumCertificate T)
  deriving DecidableEq

/-- A `HighExtend` in a timeout message: a tip may come with a vote for it. -/
inductive HighExtendVote where
  | tip (tip : ConsensusTip T) (vote : Option T.SignatureType)
  | qc (qc : QuorumCertificate T)
  deriving DecidableEq

/-- Aggregated timeouts of one round. -/
structure TimeoutCertificate where
  epoch : ℕ
  round : ℕ
  tipRounds : List (HighTipRoundSigColTuple T)
  highExtend : HighExtend T
  deriving DecidableEq

/-- What ends a round. -/
inductive RoundCertificate where
  | qc (qc : QuorumCertificate T)
  | tc (tc : TimeoutCertificate T)
  deriving DecidableEq

/-- What validators sign. The domain separates the kinds. -/
inductive SigningMessage where
  | vote (vote : Vote T)
  | timeout (tminfo : TimeoutInfo)
  | noEndorsement (msg : NoEndorsement)
  deriving DecidableEq

variable {T}

def HighTipRoundSigColTuple.rank (t : HighTipRoundSigColTuple T) : HighExtendRank :=
  .ofRounds t.highQcRound t.highTipRound

def ConsensusTip.rank (tip : ConsensusTip T) : HighExtendRank :=
  .tip tip.blockHeader.blockRound tip.blockHeader.qc.getRound

namespace HighExtend

def rank : HighExtend T → HighExtendRank
  | .tip t => t.rank
  | .qc q => .qc q.getRound

/-- The QC of a tip, or the QC itself. -/
def getQc : HighExtend T → QuorumCertificate T
  | .tip t => t.blockHeader.qc
  | .qc q => q

/-- `a > b` in the source's partial order: equal ranks of different values do not
compare. -/
def gt (a b : HighExtend T) : Bool := decide (b.rank < a.rank)

@[simp] theorem qcRound_rank (high : HighExtend T) : high.rank.qcRound = high.getQc.getRound := by
  cases high <;> rfl

end HighExtend

namespace HighExtendVote

def toHighExtend : HighExtendVote T → HighExtend T
  | .tip t _ => .tip t
  | .qc q => .qc q

def rank (high : HighExtendVote T) : HighExtendRank := high.toHighExtend.rank

def getQc (high : HighExtendVote T) : QuorumCertificate T := high.toHighExtend.getQc

end HighExtendVote

namespace RoundCertificate

def round : RoundCertificate T → ℕ
  | .qc q => q.getRound
  | .tc c => c.round

/-- The QC a certificate carries: itself, or the one its timeouts extend. -/
def getQc : RoundCertificate T → QuorumCertificate T
  | .qc q => q
  | .tc c => c.highExtend.getQc

end RoundCertificate

/-! ## Messages -/

variable (T)

structure VoteMessage where
  vote : Vote T
  sig : T.SignatureType
  deriving DecidableEq

/-- A timeout, sent to all validators. -/
structure TimeoutMessage where
  tminfo : TimeoutInfo
  timeoutSignature : T.SignatureType
  highExtend : HighExtendVote T
  /-- The certificate of the round before, unless `highExtend` already carries it. -/
  lastRoundCertificate : Option (RoundCertificate T)
  deriving DecidableEq

/-- A leader's proposal of a fresh block, or of the tip of the last round's TC. -/
structure ProposalMessage where
  proposalRound : ℕ
  proposalEpoch : ℕ
  tip : ConsensusTip T
  blockBody : T.BlockBody
  lastRoundTc : Option (TimeoutCertificate T)
  deriving DecidableEq

structure AdvanceRoundMessage where
  lastRoundCertificate : RoundCertificate T
  deriving DecidableEq

/-- A leader asks whether the tip of its TC may be skipped. -/
structure RoundRecoveryMessage where
  round : ℕ
  epoch : ℕ
  tc : TimeoutCertificate T
  deriving DecidableEq

structure NoEndorsementMessage where
  msg : NoEndorsement
  signature : T.SignatureType
  deriving DecidableEq

inductive ProtocolMessage where
  | proposal (msg : ProposalMessage T)
  | vote (msg : VoteMessage T)
  | timeout (msg : TimeoutMessage T)
  | roundRecovery (msg : RoundRecoveryMessage T)
  | noEndorsement (msg : NoEndorsementMessage T)
  | advanceRound (msg : AdvanceRoundMessage T)
  deriving DecidableEq

end MonadBft
