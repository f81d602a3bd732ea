import MonadBft.Consensus

/-!
# Ideal hashes and signatures

An environment in which the assumptions on cryptography hold exactly. The hash of a header
and of a signed message is the data itself (`Digest`), so hashes have no collisions
(`headerId_injective`). A signature is the signer's key with the digest of what it signs,
and an aggregate lists its signers (`Aggregate`), so `LawfulSignatures` holds for every
mapping (`lawfulSignatures`).

`committee` is a validator set of four members with equal stake. `aggregate`, `qc` and
`tipRounds` build the certificates its members sign.
-/

namespace MonadBft.Ideal

/-- The hash of a header or of a signed message: its content. -/
inductive Digest where
  | genesis
  | header (fields : List ℕ) (qcId : Digest) (qcSigners : List (NodeId × ℕ)) (qcDigest : Digest)
  | vote (id : Digest) (round epoch : ℕ)
  | timeout (tminfo : TimeoutInfo)
  | noEndorsement (msg : NoEndorsement)
  deriving DecidableEq

/-- The signers with their keys, and what they signed. -/
structure Aggregate where
  signers : List (NodeId × ℕ)
  digest : Digest
  deriving DecidableEq

/-- Bodies are their own hashes. -/
abbrev types : Types where
  BlockId := Digest
  SignatureType := ℕ × Digest
  SignatureCollection := Aggregate
  HeaderSignature := NodeId × Digest
  BlockBodyId := ℕ
  BlockBody := ℕ
  ExecutionInputs := ℕ

def headerId (h : ConsensusBlockHeader types) : Digest :=
  .header
    [h.blockRound, h.epoch, h.qc.info.round, h.qc.info.epoch, h.author, h.seqNum, h.timestampNs,
      h.blockBodyId, h.executionInputs]
    h.qc.info.id h.qc.signatures.signers h.qc.signatures.digest

theorem headerId_injective : Function.Injective headerId := by
  rintro ⟨_, _, ⟨⟨_, _, _⟩, ⟨_, _⟩⟩, _, _, _, _, _⟩ ⟨_, _, ⟨⟨_, _, _⟩, ⟨_, _⟩⟩, _, _, _, _, _⟩ h
  obtain ⟨⟨rfl, rfl, rfl, rfl, rfl, rfl, rfl, rfl, rfl⟩, rfl, rfl, rfl⟩ := h
  rfl

/-- What is signed for a message. -/
def digest : SigningMessage types → Digest
  | .vote v => .vote v.id v.round v.epoch
  | .timeout tminfo => .timeout tminfo
  | .noEndorsement msg => .noEndorsement msg

/-- A signature is valid if it is of the key the mapping records. -/
def verifySignature (mapping : ValidatorMapping) (node : NodeId) (msg : SigningMessage types)
    (sig : ℕ × Digest) : Bool :=
  decide (mapping.lookup node = some sig.1 ∧ sig.2 = digest msg)

/-- Aggregate signatures, or report the invalid ones. -/
def newCollection (sigs : List (NodeId × (ℕ × Digest))) (mapping : ValidatorMapping)
    (msg : SigningMessage types) : Except (SignatureCollectionError types) Aggregate :=
  let invalid := sigs.filter fun s => !verifySignature mapping s.1 msg s.2
  if invalid = [] then .ok { signers := sigs.map fun s => (s.1, s.2.1), digest := digest msg }
  else .error (.invalidSignaturesCreate invalid)

def verifyCollection (sct : Aggregate) (mapping : ValidatorMapping) (msg : SigningMessage types) :
    Option (List NodeId) :=
  if sct.digest = digest msg ∧ ∀ s ∈ sct.signers, mapping.lookup s.1 = some s.2 then
    some (sct.signers.map Prod.fst)
  else none

/-- The environment, for a given leader of each round. -/
abbrev env (leader : ℕ → NodeId) : Env types where
  getId := headerId
  GENESIS_BLOCK_ID := .genesis
  getBodyId body := body
  sign node msg := (node, digest msg)
  validateSignature _ := true
  verifySignature := verifySignature
  newCollection := newCollection
  verifyCollection := verifyCollection
  numSignatures sct := sct.signers.length
  emptyCollection := { signers := [], digest := .genesis }
  signHeader node header := (node, headerId header)
  signatureAuthor header sig := if sig.2 = headerId header then some sig.1 else none
  getLeader round _ := leader round
  groupOrder groups := groups
  delta := 100
  votePace _ := 400
  maxDeltaNs := 1000
  liveToStatesyncThreshold := 100

/-- Node 0 leads every round. -/
abbrev soleLeader : Env types := env fun _ => 0

/-- The QC of the genesis block, which does not depend on the leaders. -/
def genesisQc : QuorumCertificate types := soleLeader.genesisQc

theorem lawfulSignatures (leader : ℕ → NodeId) (mapping : ValidatorMapping) :
    LawfulSignatures (env leader) mapping := by
  have hiff : ∀ sigs msg sct, newCollection sigs mapping msg = .ok sct ↔
      (∀ s ∈ sigs, verifySignature mapping s.1 msg s.2 = true) ∧
        sct = { signers := sigs.map fun s => (s.1, s.2.1), digest := digest msg } := by
    intro sigs msg sct
    have hnil : (sigs.filter fun s => !verifySignature mapping s.1 msg s.2) = [] ↔
        ∀ s ∈ sigs, verifySignature mapping s.1 msg s.2 = true := by
      simp [List.filter_eq_nil_iff]
    unfold newCollection
    dsimp only
    split
    next h =>
      rw [Except.ok.injEq, and_iff_right (hnil.mp h)]
      exact eq_comm
    next h =>
      exact ⟨fun hok => (by cases hok), fun hvalid => absurd (hnil.mpr hvalid.1) h⟩
  refine ⟨fun {sigs msg} _ => ?_, fun {sigs msg sct} _ h => ?_, fun {sigs msg sct} _ h => ?_⟩
  · exact ⟨fun ⟨sct, h⟩ => ((hiff sigs msg sct).mp h).1, fun h => ⟨_, (hiff sigs msg _).mpr ⟨h, rfl⟩⟩⟩
  · obtain ⟨hvalid, rfl⟩ := (hiff sigs msg sct).mp h
    refine ⟨sigs.map Prod.fst, ?_, List.Perm.refl _⟩
    have hkeys : ∀ s ∈ sigs, mapping.lookup s.1 = some s.2.1 := fun s hs =>
      (of_decide_eq_true (hvalid s hs)).1
    simpa [verifyCollection, Function.comp_def] using fun a b c hs => hkeys (a, b, c) hs
  · obtain ⟨-, rfl⟩ := (hiff sigs msg sct).mp h
    simp

/-! ## A committee of four -/

def committee : ValidatorSet where
  validators := [(0, 1), (1, 1), (2, 1), (3, 1)]
  nodup := by decide
  pos := by decide
  ne_nil := by decide

def keys : ValidatorMapping := [(0, 0), (1, 1), (2, 2), (3, 3)]

/-- One epoch, for the first thousand blocks. -/
def epochs : EpochManager where
  epochLength := 1000
  epochStartDelay := 10
  epochStarts := [(1, 0)]

/-- The genesis block. -/
def root : RootInfo types where
  round := GENESIS_ROUND
  seqNum := GENESIS_SEQ_NUM
  epoch := 1
  blockId := .genesis
  timestampNs := 0

/-- The signatures of some nodes on a message. -/
def aggregate (nodes : List NodeId) (msg : SigningMessage types) : Aggregate where
  signers := nodes.map fun i => (i, i)
  digest := digest msg

/-- A QC of votes of some nodes. -/
def qc (nodes : List NodeId) (id : Digest) (round epoch : ℕ) : QuorumCertificate types where
  info := { id, round, epoch }
  signatures := aggregate nodes (.vote { id, round, epoch })

/-- The timeouts of some nodes that report the same rounds. -/
def tipRounds (nodes : List NodeId) (tminfo : TimeoutInfo) : HighTipRoundSigColTuple types where
  highQcRound := tminfo.highQcRound
  highTipRound := tminfo.highTipRound
  sigs := aggregate nodes (.timeout tminfo)

/-- A timeout certificate of groups of nodes, each with the QC round and the tip round it
reports. -/
def tc (round : ℕ) (groups : List (List NodeId × ℕ × ℕ)) (highExtend : HighExtend types) :
    TimeoutCertificate types where
  epoch := 1
  round
  tipRounds := groups.map fun g =>
    tipRounds g.1 { epoch := 1, round, highQcRound := g.2.1, highTipRound := g.2.2 }
  highExtend

/-- The certificate of freshness of a block on the QC of a TC without tip. -/
def noTip (tc : TimeoutCertificate types) : FreshProposalCertificate types :=
  .noTip { epoch := tc.epoch, round := tc.round, tipRounds := tc.tipRounds
           highQc := tc.highExtend.getQc }

/-- A block with its author's signature. -/
def tip (author blockRound : ℕ) (qc : QuorumCertificate types) (seqNum body : ℕ)
    (freshCertificate : Option (FreshProposalCertificate types)) : ConsensusTip types :=
  let blockHeader : ConsensusBlockHeader types :=
    { blockRound, epoch := 1, qc, author, seqNum, timestampNs := seqNum, blockBodyId := body
      executionInputs := 0 }
  { blockHeader, signature := (author, headerId blockHeader), freshCertificate }

def proposal (proposalRound : ℕ) (tip : ConsensusTip types)
    (lastRoundTc : Option (TimeoutCertificate types)) : ProposalMessage types where
  proposalRound
  proposalEpoch := 1
  tip
  blockBody := tip.blockHeader.blockBodyId
  lastRoundTc

/-- A timeout without a vote. -/
def timeout (node : NodeId) (tminfo : TimeoutInfo) (highExtend : HighExtend types)
    (lastRoundCertificate : Option (RoundCertificate types)) : TimeoutMessage types :=
  .new soleLeader node tminfo highExtend false lastRoundCertificate

variable {leader : ℕ → NodeId}

/-- A node of the committee, whose block policy accepts every block. -/
def member (nodeid localTimeNs : ℕ) : Ctx (env leader) where
  nodeid
  valEpochMap _ := some (committee, keys)
  localTimeNs
  checkCoherency _ _ _ := true
  validate _ _ _ := true
  expectedExecutionResults _ _ := true

variable (leader) in
def genesisNode : Node (env leader) where
  pendingBlockTree := .new root
  voteState := .new 1
  noEndorsementState := .new 1
  scheduledVote := none
  safety := .new (env leader) (.qc genesisQc) none
  pacemaker := .entered 1 (.qc genesisQc)
  blockSyncRequests := []
  canonicalProposedTip := none
  epochManager := epochs

theorem new_genesisNode :
    Node.new (env leader) epochs root (.qc genesisQc) = .ok (genesisNode leader) :=
  rfl

end MonadBft.Ideal
