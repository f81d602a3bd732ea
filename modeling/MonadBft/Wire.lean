import MonadBft.Rlp
import MonadBft.Types

/-!
# The wire format of consensus messages

Records are lists of their fields, variants are lists that start with a tag, and a certificate
that may be missing is the last field of its record or left out. Encoders and decoders are
written separately in the code, so they are here; the encodings of signatures, node ids and
the execution protocol's types are parameters (`Components`).

`ConsensusMessage.decode_encode`: every message whose numbers fit their machine types and whose
lists are within the decoder's bounds (`FitsWire`) is read back, to the last byte, so no two
messages have one encoding.
-/

namespace MonadBft

open List Rlp HighTipRoundSigColTuple

/-! ## Component types -/

/-- The types the protocol is generic in, with their encodings. -/
structure Components where
  SignatureType : Type
  SignatureCollection : Type
  HeaderSignature : Type
  /-- A header the execution protocol has finalized. -/
  FinalizedHeader : Type
  /-- The inputs of an execution. -/
  ProposedHeader : Type
  Body : Type
  [signatureEq : DecidableEq SignatureType]
  [collectionEq : DecidableEq SignatureCollection]
  [headerSignatureEq : DecidableEq HeaderSignature]
  [finalizedHeaderEq : DecidableEq FinalizedHeader]
  [proposedHeaderEq : DecidableEq ProposedHeader]
  [bodyEq : DecidableEq Body]
  signature : Rlp.Codec SignatureType
  signatureCollection : Rlp.Codec SignatureCollection
  headerSignature : Rlp.Codec HeaderSignature
  nodeId : Rlp.Codec NodeId
  finalizedHeader : Rlp.Codec FinalizedHeader
  proposedHeader : Rlp.Codec ProposedHeader
  body : Rlp.Codec Body

attribute [instance] Components.signatureEq Components.collectionEq
  Components.headerSignatureEq Components.finalizedHeaderEq Components.proposedHeaderEq
  Components.bodyEq

/-- The header fields that consensus passes on. -/
structure PassedOnFields (C : Components) where
  roundSignature : C.SignatureType
  delayedExecutionResults : List C.FinalizedHeader
  executionInputs : C.ProposedHeader
  baseFee : ℕ
  baseFeeTrend : ℕ
  baseFeeMoment : ℕ
  deriving DecidableEq

structure ConsensusBlockBody (C : Components) where
  executionBody : C.Body
  deriving DecidableEq

/-- The types of the protocol, with hashes of 32 bytes. -/
abbrev Components.types (C : Components) : Types where
  BlockId := ByteArrayN 32
  SignatureType := C.SignatureType
  SignatureCollection := C.SignatureCollection
  HeaderSignature := C.HeaderSignature
  BlockBodyId := ByteArrayN 32
  BlockBody := ConsensusBlockBody C
  ExecutionInputs := PassedOnFields C

variable {C : Components} {n : ℕ}

def MAX_DELAYED_RESULTS : ℕ := 4

def MAX_VALIDATORS : ℕ := 300

def encodeU8 : ℕ → Bytes := encodeUint

def encodeU32 : ℕ → Bytes := encodeUint

def encodeU64 : ℕ → Bytes := encodeUint

def encodeU128 : ℕ → Bytes := encodeUint

def decodeU8 : Decoder ℕ := decodeUint 1

def decodeU32 : Decoder ℕ := decodeUint 4

def decodeU64 : Decoder ℕ := decodeUint 8

def decodeU128 : Decoder ℕ := decodeUint 16

theorem Rlp.Recovers.u8 (h : n < 2 ^ 8) : Recovers decodeU8 (encodeU8 n) n :=
  (Reads.uint (by omega) (by omega)).recovers

theorem Rlp.Recovers.u32 (h : n < 2 ^ 32) : Recovers decodeU32 (encodeU32 n) n :=
  (Reads.uint (by omega) (by omega)).recovers

theorem Rlp.Recovers.u64 (h : n < 2 ^ 64) : Recovers decodeU64 (encodeU64 n) n :=
  (Reads.uint (by omega) (by omega)).recovers

theorem Rlp.Recovers.u128 (h : n < 2 ^ 128) : Recovers decodeU128 (encodeU128 n) n :=
  (Reads.uint (by omega) (by omega)).recovers

/-! ## Votes and quorum certificates -/

namespace Vote

def encode (v : Vote C.types) : Bytes :=
  encodeList [encodeArray v.id, encodeU64 v.round, encodeU64 v.epoch].flatten

def decode : Decoder (Vote C.types) := decodeRecord do
  let id ← decodeArray 32
  let round ← decodeU64
  let epoch ← decodeU64
  return { id, round, epoch }

/-- The numbers fit their machine types. -/
structure FitsWire (v : Vote C.types) : Prop where
  round_lt : v.round < 2 ^ 64
  epoch_lt : v.epoch < 2 ^ 64

theorem reads {v : Vote C.types} (h : v.FitsWire) : Recovers decode v.encode v :=
  .record <| .bind (.array v.id) <| .bind (.u64 h.round_lt) <| .bind (.u64 h.epoch_lt) <| .done _

end Vote

namespace QuorumCertificate

def encode (qc : QuorumCertificate C.types) : Bytes :=
  encodeList [qc.info.encode, C.signatureCollection.encode qc.signatures].flatten

def decode : Decoder (QuorumCertificate C.types) := decodeRecord do
  let info ← Vote.decode
  let signatures ← C.signatureCollection.decode
  return { info, signatures }

def FitsWire (qc : QuorumCertificate C.types) : Prop := qc.info.FitsWire

theorem reads {qc : QuorumCertificate C.types} (h : qc.FitsWire) : Recovers decode qc.encode qc :=
  .record <| .bind (Vote.reads h) <| .bind (C.signatureCollection.reads _) <| .done _

end QuorumCertificate

/-! ## Block headers -/

namespace ConsensusBlockHeader

/-- A list of any length. -/
def encodeDelayed (results : List C.FinalizedHeader) : Bytes :=
  encodeList (results.flatMap C.finalizedHeader.encode)

def rlpPayloadLength (h : ConsensusBlockHeader C.types) : ℕ :=
  (encodeU64 h.blockRound).length + (encodeU64 h.epoch).length + h.qc.encode.length +
    (C.nodeId.encode h.author).length + (encodeU64 h.seqNum).length +
    (encodeU128 h.timestampNs).length +
    (C.signature.encode h.executionInputs.roundSignature).length +
    (encodeDelayed h.executionInputs.delayedExecutionResults).length +
    (C.proposedHeader.encode h.executionInputs.executionInputs).length +
    (encodeArray h.blockBodyId).length + (encodeU64 h.executionInputs.baseFee).length +
    (encodeU64 h.executionInputs.baseFeeTrend).length +
    (encodeU64 h.executionInputs.baseFeeMoment).length

def fields (h : ConsensusBlockHeader C.types) : List Bytes :=
  [encodeU64 h.blockRound, encodeU64 h.epoch, h.qc.encode, C.nodeId.encode h.author,
    encodeU64 h.seqNum, encodeU128 h.timestampNs,
    C.signature.encode h.executionInputs.roundSignature,
    encodeDelayed h.executionInputs.delayedExecutionResults,
    C.proposedHeader.encode h.executionInputs.executionInputs, encodeArray h.blockBodyId,
    encodeU64 h.executionInputs.baseFee, encodeU64 h.executionInputs.baseFeeTrend,
    encodeU64 h.executionInputs.baseFeeMoment]

def encode (h : ConsensusBlockHeader C.types) : Bytes :=
  Header.encode ⟨true, h.rlpPayloadLength⟩ ++ h.fields.flatten

/-- The delayed results are limited here only. -/
def decode : Decoder (ConsensusBlockHeader C.types) := decodeRecord do
  let blockRound ← decodeU64
  let epoch ← decodeU64
  let qc ← QuorumCertificate.decode
  let author ← C.nodeId.decode
  let seqNum ← decodeU64
  let timestampNs ← decodeU128
  let roundSignature ← C.signature.decode
  let delayedExecutionResults ← decodeLimitedVec MAX_DELAYED_RESULTS C.finalizedHeader.decode
  let executionInputs ← C.proposedHeader.decode
  let blockBodyId ← decodeArray 32
  let baseFee ← decodeU64
  let baseFeeTrend ← decodeU64
  let baseFeeMoment ← decodeU64
  return { blockRound, epoch, qc, author, seqNum, timestampNs, blockBodyId
           executionInputs :=
             { roundSignature, delayedExecutionResults, executionInputs, baseFee, baseFeeTrend
               baseFeeMoment } }

structure FitsWire (h : ConsensusBlockHeader C.types) : Prop where
  blockRound_lt : h.blockRound < 2 ^ 64
  epoch_lt : h.epoch < 2 ^ 64
  qc_fits : h.qc.FitsWire
  seqNum_lt : h.seqNum < 2 ^ 64
  timestampNs_lt : h.timestampNs < 2 ^ 128
  delayed_le : h.executionInputs.delayedExecutionResults.length ≤ MAX_DELAYED_RESULTS
  baseFee_lt : h.executionInputs.baseFee < 2 ^ 64
  baseFeeTrend_lt : h.executionInputs.baseFeeTrend < 2 ^ 64
  baseFeeMoment_lt : h.executionInputs.baseFeeMoment < 2 ^ 64

/-- The length in the header is the length of the fields. -/
theorem encode_eq (h : ConsensusBlockHeader C.types) : h.encode = encodeList h.fields.flatten := by
  have hlen : h.rlpPayloadLength = h.fields.flatten.length := by
    simp only [rlpPayloadLength, fields, flatten_cons, flatten_nil, length_append, length_nil]
    omega
  rw [encode, hlen, encodeList]

theorem reads_delayed {results : List C.FinalizedHeader}
    (h : results.length ≤ MAX_DELAYED_RESULTS) :
    Recovers (decodeLimitedVec MAX_DELAYED_RESULTS C.finalizedHeader.decode)
      (encodeDelayed results) results :=
  .limitedVec (fun a _ => C.finalizedHeader.reads a) (fun a _ => C.finalizedHeader.encode_ne_nil a) h

theorem reads {h : ConsensusBlockHeader C.types} (hf : h.FitsWire) : Recovers decode h.encode h := by
  rw [encode_eq]
  exact .record <| .bind (.u64 hf.blockRound_lt) <| .bind (.u64 hf.epoch_lt) <|
    .bind (QuorumCertificate.reads hf.qc_fits) <| .bind (C.nodeId.reads _) <|
    .bind (.u64 hf.seqNum_lt) <| .bind (.u128 hf.timestampNs_lt) <|
    .bind (C.signature.reads _) <| .bind (reads_delayed hf.delayed_le) <|
    .bind (C.proposedHeader.reads _) <| .bind (.array _) <| .bind (.u64 hf.baseFee_lt) <|
    .bind (.u64 hf.baseFeeTrend_lt) <| .bind (.u64 hf.baseFeeMoment_lt) <| .done _

end ConsensusBlockHeader

/-! ## Certificates -/

namespace NoEndorsement

def encode (m : NoEndorsement) : Bytes :=
  encodeList [encodeU64 m.epoch, encodeU64 m.round, encodeU64 m.tipQcRound].flatten

def decode : Decoder NoEndorsement := decodeRecord do
  let epoch ← decodeU64
  let round ← decodeU64
  let tipQcRound ← decodeU64
  return { epoch, round, tipQcRound }

structure FitsWire (m : NoEndorsement) : Prop where
  epoch_lt : m.epoch < 2 ^ 64
  round_lt : m.round < 2 ^ 64
  tipQcRound_lt : m.tipQcRound < 2 ^ 64

theorem reads {m : NoEndorsement} (h : m.FitsWire) : Recovers decode m.encode m :=
  .record <| .bind (.u64 h.epoch_lt) <| .bind (.u64 h.round_lt) <|
    .bind (.u64 h.tipQcRound_lt) <| .done _

end NoEndorsement

namespace NoEndorsementCertificate

def encode (nec : NoEndorsementCertificate C.types) : Bytes :=
  encodeList [nec.msg.encode, C.signatureCollection.encode nec.signatures].flatten

def decode : Decoder (NoEndorsementCertificate C.types) := decodeRecord do
  let msg ← NoEndorsement.decode
  let signatures ← C.signatureCollection.decode
  return { msg, signatures }

def FitsWire (nec : NoEndorsementCertificate C.types) : Prop := nec.msg.FitsWire

theorem reads {nec : NoEndorsementCertificate C.types} (h : nec.FitsWire) : Recovers decode nec.encode nec :=
  .record <| .bind (NoEndorsement.reads h) <| .bind (C.signatureCollection.reads _) <| .done _

end NoEndorsementCertificate

namespace HighTipRoundSigColTuple

def encode (t : HighTipRoundSigColTuple C.types) : Bytes :=
  encodeList [encodeU64 t.highQcRound, encodeU64 t.highTipRound,
    C.signatureCollection.encode t.sigs].flatten

def decode : Decoder (HighTipRoundSigColTuple C.types) := decodeRecord do
  let highQcRound ← decodeU64
  let highTipRound ← decodeU64
  let sigs ← C.signatureCollection.decode
  return { highQcRound, highTipRound, sigs }

structure FitsWire (t : HighTipRoundSigColTuple C.types) : Prop where
  highQcRound_lt : t.highQcRound < 2 ^ 64
  highTipRound_lt : t.highTipRound < 2 ^ 64

theorem reads {t : HighTipRoundSigColTuple C.types} (h : t.FitsWire) : Recovers decode t.encode t :=
  .record <| .bind (.u64 h.highQcRound_lt) <| .bind (.u64 h.highTipRound_lt) <|
    .bind (C.signatureCollection.reads _) <|
    .done _

def encodeAll (ts : List (HighTipRoundSigColTuple C.types)) : Bytes :=
  encodeList (ts.flatMap encode)

def decodeAll : Decoder (List (HighTipRoundSigColTuple C.types)) :=
  decodeLimitedVec MAX_VALIDATORS decode

structure AllFit (ts : List (HighTipRoundSigColTuple C.types)) : Prop where
  length_le : ts.length ≤ MAX_VALIDATORS
  fits : ∀ t ∈ ts, t.FitsWire

theorem reads_all {ts : List (HighTipRoundSigColTuple C.types)} (h : AllFit ts) :
    Recovers decodeAll (encodeAll ts) ts :=
  .limitedVec (fun t ht => reads (h.fits t ht)) (fun _ _ => encodeList_ne_nil _) h.length_le

end HighTipRoundSigColTuple

namespace NoTipCertificate

def encode (cert : NoTipCertificate C.types) : Bytes :=
  encodeList [encodeU64 cert.epoch, encodeU64 cert.round,
    encodeAll cert.tipRounds, cert.highQc.encode].flatten

def decode : Decoder (NoTipCertificate C.types) := decodeRecord do
  let epoch ← decodeU64
  let round ← decodeU64
  let tipRounds ← decodeAll
  let highQc ← QuorumCertificate.decode
  return { epoch, round, tipRounds, highQc }

structure FitsWire (cert : NoTipCertificate C.types) : Prop where
  epoch_lt : cert.epoch < 2 ^ 64
  round_lt : cert.round < 2 ^ 64
  tipRounds_fit : HighTipRoundSigColTuple.AllFit cert.tipRounds
  highQc_fits : cert.highQc.FitsWire

theorem reads {cert : NoTipCertificate C.types} (h : cert.FitsWire) : Recovers decode cert.encode cert :=
  .record <| .bind (.u64 h.epoch_lt) <| .bind (.u64 h.round_lt) <|
    .bind (reads_all h.tipRounds_fit) <|
    .bind (QuorumCertificate.reads h.highQc_fits) <|
    .done _

end NoTipCertificate

namespace FreshProposalCertificate

def encode : FreshProposalCertificate C.types → Bytes
  | .nec cert => encodeList [encodeU8 1, cert.encode].flatten
  | .noTip cert => encodeList [encodeU8 2, cert.encode].flatten

def decode : Decoder (FreshProposalCertificate C.types) := inPayload do
  match ← decodeU8 with
  | 1 => return .nec (← NoEndorsementCertificate.decode)
  | 2 => return .noTip (← NoTipCertificate.decode)
  | _ => throw (.custom "failed to decode unknown FreshProposalCertificate")

def FitsWire : FreshProposalCertificate C.types → Prop
  | .nec cert => cert.FitsWire
  | .noTip cert => cert.FitsWire

variable {cert : FreshProposalCertificate C.types}

theorem reads (h : cert.FitsWire) : Recovers decode cert.encode cert := by
  cases cert with
  | nec nec =>
    exact .inPayload <| .bind (.u8 (by omega)) <| .bind (NoEndorsementCertificate.reads h) <| .done _
  | noTip noTip =>
    exact .inPayload <| .bind (.u8 (by omega)) <| .bind (NoTipCertificate.reads h) <| .done _

theorem encode_eq (cert : FreshProposalCertificate C.types) :
    ∃ payload, cert.encode = encodeList payload := by
  cases cert <;> exact ⟨_, rfl⟩

end FreshProposalCertificate

namespace ConsensusTip

def encode (tip : ConsensusTip C.types) : Bytes :=
  encodeList ([tip.blockHeader.encode, C.headerSignature.encode tip.signature] ++
    [encodeTrailing FreshProposalCertificate.encode tip.freshCertificate]).flatten

def decodeFields : Decoder (ConsensusBlockHeader C.types × C.HeaderSignature) := do
  let blockHeader ← ConsensusBlockHeader.decode
  let signature ← C.headerSignature.decode
  return (blockHeader, signature)

def decode : Decoder (ConsensusTip C.types) :=
  decodeTrailing decodeFields FreshProposalCertificate.decode
    fun (blockHeader, signature) freshCertificate => { blockHeader, signature, freshCertificate }

structure FitsWire (tip : ConsensusTip C.types) : Prop where
  blockHeader_fits : tip.blockHeader.FitsWire
  freshCertificate_fits : ∀ cert ∈ tip.freshCertificate, cert.FitsWire

theorem reads {tip : ConsensusTip C.types} (h : tip.FitsWire) : Recovers decode tip.encode tip := by
  have hfields : Recovers decodeFields
      [tip.blockHeader.encode, C.headerSignature.encode tip.signature].flatten
      (tip.blockHeader, tip.signature) :=
    .bind (ConsensusBlockHeader.reads h.blockHeader_fits) <|
    .bind (C.headerSignature.reads tip.signature) <| .done _
  exact .trailing
    (fun cert hmem => FreshProposalCertificate.reads (h.freshCertificate_fits cert hmem))
    FreshProposalCertificate.encode_eq hfields

end ConsensusTip

namespace HighExtend

def encode : HighExtend C.types → Bytes
  | .tip t => encodeList [encodeU8 1, t.encode].flatten
  | .qc q => encodeList [encodeU8 2, q.encode].flatten

def decode : Decoder (HighExtend C.types) := inPayload do
  match ← decodeU8 with
  | 1 => return .tip (← ConsensusTip.decode)
  | 2 => return .qc (← QuorumCertificate.decode)
  | _ => throw (.custom "failed to decode unknown HighExtend")

def FitsWire : HighExtend C.types → Prop
  | .tip t => t.FitsWire
  | .qc q => q.FitsWire

theorem reads {high : HighExtend C.types} (h : high.FitsWire) :
    Recovers decode high.encode high := by
  cases high with
  | tip t =>
    exact .inPayload <| .bind (.u8 (by omega)) <| .bind (ConsensusTip.reads h) <| .done _
  | qc q =>
    exact .inPayload <| .bind (.u8 (by omega)) <| .bind (QuorumCertificate.reads h) <| .done _

end HighExtend

namespace HighExtendVote

/-- The vote for a tip is left out if there is none. -/
def encode : HighExtendVote C.types → Bytes
  | .tip t (some vote) => encodeList [encodeU8 1, t.encode, C.signature.encode vote].flatten
  | .tip t none => encodeList [encodeU8 1, t.encode].flatten
  | .qc q => encodeList [encodeU8 2, q.encode].flatten

/-- A vote, unless the payload is used up. -/
def decodeVote : Decoder (Option C.SignatureType) := do
  if (← get).isEmpty then return none
  else return some (← C.signature.decode)

def decode : Decoder (HighExtendVote C.types) := inPayload do
  match ← decodeU8 with
  | 1 =>
    let tip ← ConsensusTip.decode
    let vote ← decodeVote
    return .tip tip vote
  | 2 => return .qc (← QuorumCertificate.decode)
  | _ => throw (.custom "failed to decode unknown HighExtend")

def FitsWire : HighExtendVote C.types → Prop
  | .tip t _ => t.FitsWire
  | .qc q => q.FitsWire

/-- A vote has an encoding that is not empty, so it is seen. -/
theorem reads_vote {vote : C.SignatureType} :
    Recovers decodeVote (C.signature.encode vote) (some vote) := by
  intro hlen rest
  have hne : ¬ (C.signature.encode vote ++ rest).isEmpty = true := by
    simp [C.signature.encode_ne_nil vote]
  change (if (C.signature.encode vote ++ rest).isEmpty = true then _ else _ : Decoder _).run
    (C.signature.encode vote ++ rest) = _
  rw [if_neg hne]
  exact (C.signature.reads vote hlen).run_bind rest

theorem reads {high : HighExtendVote C.types} (h : high.FitsWire) : Recovers decode high.encode high := by
  cases high with
  | tip t vote =>
    cases vote with
    | none =>
      intro hlen
      have hlt := length_lt_of_encodeList hlen
      have hparts : (encodeU8 1).length + t.encode.length < 2 ^ 64 := by simpa using hlt
      have ht := ConsensusTip.reads h (by omega)
      exact .inPayload (((Recovers.u8 (by omega) (by omega)).run_bind _).trans (ht.run_bind [])) hlt
    | some vote =>
      exact .inPayload <| .bind (.u8 (by omega)) <| .bind (ConsensusTip.reads h) <|
        .bind reads_vote <| .done _
  | qc q =>
    exact .inPayload <| .bind (.u8 (by omega)) <| .bind (QuorumCertificate.reads h) <| .done _

end HighExtendVote

namespace TimeoutCertificate

def encode (tc : TimeoutCertificate C.types) : Bytes :=
  encodeList [encodeU64 tc.epoch, encodeU64 tc.round,
    encodeAll tc.tipRounds, tc.highExtend.encode].flatten

def decode : Decoder (TimeoutCertificate C.types) := decodeRecord do
  let epoch ← decodeU64
  let round ← decodeU64
  let tipRounds ← decodeAll
  let highExtend ← HighExtend.decode
  return { epoch, round, tipRounds, highExtend }

structure FitsWire (tc : TimeoutCertificate C.types) : Prop where
  epoch_lt : tc.epoch < 2 ^ 64
  round_lt : tc.round < 2 ^ 64
  tipRounds_fit : HighTipRoundSigColTuple.AllFit tc.tipRounds
  highExtend_fits : tc.highExtend.FitsWire

variable {tc : TimeoutCertificate C.types}

theorem reads (h : tc.FitsWire) : Recovers decode tc.encode tc :=
  .record <| .bind (.u64 h.epoch_lt) <| .bind (.u64 h.round_lt) <|
    .bind (reads_all h.tipRounds_fit) <|
    .bind (HighExtend.reads h.highExtend_fits) <|
    .done _

theorem encode_eq (tc : TimeoutCertificate C.types) : ∃ payload, tc.encode = encodeList payload :=
  ⟨_, rfl⟩

end TimeoutCertificate

namespace RoundCertificate

def encode : RoundCertificate C.types → Bytes
  | .qc q => encodeList [encodeU8 1, q.encode].flatten
  | .tc c => encodeList [encodeU8 2, c.encode].flatten

def decode : Decoder (RoundCertificate C.types) := inPayload do
  match ← decodeU8 with
  | 1 => return .qc (← QuorumCertificate.decode)
  | 2 => return .tc (← TimeoutCertificate.decode)
  | _ => throw (.custom "failed to decode unknown RoundCertificate")

def FitsWire : RoundCertificate C.types → Prop
  | .qc q => q.FitsWire
  | .tc c => c.FitsWire

variable {cert : RoundCertificate C.types}

theorem reads (h : cert.FitsWire) : Recovers decode cert.encode cert := by
  cases cert with
  | qc q =>
    exact .inPayload <| .bind (.u8 (by omega)) <| .bind (QuorumCertificate.reads h) <| .done _
  | tc c =>
    exact .inPayload <| .bind (.u8 (by omega)) <| .bind (TimeoutCertificate.reads h) <| .done _

theorem encode_eq (cert : RoundCertificate C.types) : ∃ payload, cert.encode = encodeList payload := by
  cases cert <;> exact ⟨_, rfl⟩

end RoundCertificate

/-! ## Messages -/

namespace TimeoutInfo

def encode (tminfo : TimeoutInfo) : Bytes :=
  encodeList [encodeU64 tminfo.epoch, encodeU64 tminfo.round, encodeU64 tminfo.highQcRound,
    encodeU64 tminfo.highTipRound].flatten

def decode : Decoder TimeoutInfo := decodeRecord do
  let epoch ← decodeU64
  let round ← decodeU64
  let highQcRound ← decodeU64
  let highTipRound ← decodeU64
  return { epoch, round, highQcRound, highTipRound }

structure FitsWire (tminfo : TimeoutInfo) : Prop where
  epoch_lt : tminfo.epoch < 2 ^ 64
  round_lt : tminfo.round < 2 ^ 64
  highQcRound_lt : tminfo.highQcRound < 2 ^ 64
  highTipRound_lt : tminfo.highTipRound < 2 ^ 64

theorem reads {tminfo : TimeoutInfo} (h : tminfo.FitsWire) : Recovers decode tminfo.encode tminfo :=
  .record <| .bind (.u64 h.epoch_lt) <| .bind (.u64 h.round_lt) <|
    .bind (.u64 h.highQcRound_lt) <| .bind (.u64 h.highTipRound_lt) <|
    .done _

end TimeoutInfo

namespace VoteMessage

def encode (m : VoteMessage C.types) : Bytes :=
  encodeList [m.vote.encode, C.signature.encode m.sig].flatten

def decode : Decoder (VoteMessage C.types) := decodeRecord do
  let vote ← Vote.decode
  let sig ← C.signature.decode
  return { vote, sig }

def FitsWire (m : VoteMessage C.types) : Prop := m.vote.FitsWire

theorem reads {m : VoteMessage C.types} (h : m.FitsWire) : Recovers decode m.encode m :=
  .record <| .bind (Vote.reads h) <| .bind (C.signature.reads _) <| .done _

end VoteMessage

namespace TimeoutMessage

def encode (m : TimeoutMessage C.types) : Bytes :=
  encodeList ([m.tminfo.encode, C.signature.encode m.timeoutSignature, m.highExtend.encode] ++
    [encodeTrailing RoundCertificate.encode m.lastRoundCertificate]).flatten

def decodeFields : Decoder (TimeoutInfo × C.SignatureType × HighExtendVote C.types) := do
  let tminfo ← TimeoutInfo.decode
  let timeoutSignature ← C.signature.decode
  let highExtend ← HighExtendVote.decode
  return (tminfo, timeoutSignature, highExtend)

def decode : Decoder (TimeoutMessage C.types) :=
  decodeTrailing decodeFields RoundCertificate.decode
    fun (tminfo, timeoutSignature, highExtend) lastRoundCertificate =>
      { tminfo, timeoutSignature, highExtend, lastRoundCertificate }

structure FitsWire (m : TimeoutMessage C.types) : Prop where
  tminfo_fits : m.tminfo.FitsWire
  highExtend_fits : m.highExtend.FitsWire
  lastRoundCertificate_fits : ∀ cert ∈ m.lastRoundCertificate, cert.FitsWire

theorem reads {m : TimeoutMessage C.types} (h : m.FitsWire) : Recovers decode m.encode m := by
  have hfields : Recovers decodeFields
      [m.tminfo.encode, C.signature.encode m.timeoutSignature, m.highExtend.encode].flatten
      (m.tminfo, m.timeoutSignature, m.highExtend) :=
    .bind (TimeoutInfo.reads h.tminfo_fits) <| .bind (C.signature.reads _) <|
    .bind (HighExtendVote.reads h.highExtend_fits) <| .done _
  exact .trailing
    (fun cert hmem => RoundCertificate.reads (h.lastRoundCertificate_fits cert hmem))
    RoundCertificate.encode_eq hfields

end TimeoutMessage

namespace ConsensusBlockBody

def encode (body : ConsensusBlockBody C) : Bytes :=
  encodeList [C.body.encode body.executionBody].flatten

def decode : Decoder (ConsensusBlockBody C) := decodeRecord do
  let executionBody ← C.body.decode
  return { executionBody }

theorem reads {body : ConsensusBlockBody C} : Recovers decode body.encode body :=
  .record <| .bind (C.body.reads _) <| .done _

end ConsensusBlockBody

namespace ProposalMessage

def encode (m : ProposalMessage C.types) : Bytes :=
  encodeList ([encodeU64 m.proposalRound, encodeU64 m.proposalEpoch, m.tip.encode,
    m.blockBody.encode] ++ [encodeTrailing TimeoutCertificate.encode m.lastRoundTc]).flatten

def decodeFields : Decoder (ℕ × ℕ × ConsensusTip C.types × ConsensusBlockBody C) := do
  let proposalRound ← decodeU64
  let proposalEpoch ← decodeU64
  let tip ← ConsensusTip.decode
  let blockBody ← ConsensusBlockBody.decode
  return (proposalRound, proposalEpoch, tip, blockBody)

def decode : Decoder (ProposalMessage C.types) :=
  decodeTrailing decodeFields TimeoutCertificate.decode
    fun (proposalRound, proposalEpoch, tip, blockBody) lastRoundTc =>
      { proposalRound, proposalEpoch, tip, blockBody, lastRoundTc }

structure FitsWire (m : ProposalMessage C.types) : Prop where
  proposalRound_lt : m.proposalRound < 2 ^ 64
  proposalEpoch_lt : m.proposalEpoch < 2 ^ 64
  tip_fits : m.tip.FitsWire
  lastRoundTc_fits : ∀ tc ∈ m.lastRoundTc, tc.FitsWire

theorem reads {m : ProposalMessage C.types} (h : m.FitsWire) : Recovers decode m.encode m := by
  have hfields : Recovers decodeFields
      [encodeU64 m.proposalRound, encodeU64 m.proposalEpoch, m.tip.encode,
        m.blockBody.encode].flatten (m.proposalRound, m.proposalEpoch, m.tip, m.blockBody) :=
    .bind (.u64 h.proposalRound_lt) <| .bind (.u64 h.proposalEpoch_lt) <|
    .bind (ConsensusTip.reads h.tip_fits) <| .bind ConsensusBlockBody.reads <| .done _
  exact .trailing (fun tc hmem => TimeoutCertificate.reads (h.lastRoundTc_fits tc hmem))
    TimeoutCertificate.encode_eq hfields

end ProposalMessage

namespace RoundRecoveryMessage

def encode (m : RoundRecoveryMessage C.types) : Bytes :=
  encodeList [encodeU64 m.round, encodeU64 m.epoch, m.tc.encode].flatten

def decode : Decoder (RoundRecoveryMessage C.types) := decodeRecord do
  let round ← decodeU64
  let epoch ← decodeU64
  let tc ← TimeoutCertificate.decode
  return { round, epoch, tc }

structure FitsWire (m : RoundRecoveryMessage C.types) : Prop where
  round_lt : m.round < 2 ^ 64
  epoch_lt : m.epoch < 2 ^ 64
  tc_fits : m.tc.FitsWire

theorem reads {m : RoundRecoveryMessage C.types} (h : m.FitsWire) : Recovers decode m.encode m :=
  .record <| .bind (.u64 h.round_lt) <| .bind (.u64 h.epoch_lt) <|
    .bind (TimeoutCertificate.reads h.tc_fits) <|
    .done _

end RoundRecoveryMessage

namespace NoEndorsementMessage

def encode (m : NoEndorsementMessage C.types) : Bytes :=
  encodeList [m.msg.encode, C.signature.encode m.signature].flatten

def decode : Decoder (NoEndorsementMessage C.types) := decodeRecord do
  let msg ← NoEndorsement.decode
  let signature ← C.signature.decode
  return { msg, signature }

def FitsWire (m : NoEndorsementMessage C.types) : Prop := m.msg.FitsWire

theorem reads {m : NoEndorsementMessage C.types} (h : m.FitsWire) : Recovers decode m.encode m :=
  .record <| .bind (NoEndorsement.reads h) <| .bind (C.signature.reads _) <| .done _

end NoEndorsementMessage

namespace AdvanceRoundMessage

def encode (m : AdvanceRoundMessage C.types) : Bytes :=
  encodeList [m.lastRoundCertificate.encode].flatten

def decode : Decoder (AdvanceRoundMessage C.types) := decodeRecord do
  let lastRoundCertificate ← RoundCertificate.decode
  return { lastRoundCertificate }

def FitsWire (m : AdvanceRoundMessage C.types) : Prop := m.lastRoundCertificate.FitsWire

theorem reads {m : AdvanceRoundMessage C.types} (h : m.FitsWire) : Recovers decode m.encode m :=
  .record <| .bind (RoundCertificate.reads h) <| .done _

end AdvanceRoundMessage

namespace ProtocolMessage

/-- The bytes of the name every message starts with. -/
def PROTOCOL_MESSAGE_NAME : Bytes :=
  ['P', 'r', 'o', 't', 'o', 'c', 'o', 'l', 'M', 'e', 's', 's', 'a', 'g', 'e'].map
    fun c => UInt8.ofNat c.toNat

/-- The name, the tag of the kind, and the message. -/
def encodeTagged (tag : ℕ) (message : Bytes) : Bytes :=
  encodeList [encodeBytes PROTOCOL_MESSAGE_NAME, encodeU8 tag, message].flatten

def encode : ProtocolMessage C.types → Bytes
  | .proposal m => encodeTagged 1 m.encode
  | .vote m => encodeTagged 2 m.encode
  | .timeout m => encodeTagged 3 m.encode
  | .roundRecovery m => encodeTagged 4 m.encode
  | .noEndorsement m => encodeTagged 5 m.encode
  | .advanceRound m => encodeTagged 6 m.encode

def decodeTagged (tag : ℕ) : Decoder (ProtocolMessage C.types) := do
  match tag with
  | 1 => return .proposal (← ProposalMessage.decode)
  | 2 => return .vote (← VoteMessage.decode)
  | 3 => return .timeout (← TimeoutMessage.decode)
  | 4 => return .roundRecovery (← RoundRecoveryMessage.decode)
  | 5 => return .noEndorsement (← NoEndorsementMessage.decode)
  | 6 => return .advanceRound (← AdvanceRoundMessage.decode)
  | _ => throw (.custom "failed to decode unknown ProtocolMessage")

def decode : Decoder (ProtocolMessage C.types) := inPayload do
  let name ← decodeBytes false
  if name ≠ PROTOCOL_MESSAGE_NAME then
    throw (.custom "expected to decode type ProtocolMessage")
  else
    let tag ← decodeU8
    decodeTagged tag

def FitsWire : ProtocolMessage C.types → Prop
  | .proposal m => m.FitsWire
  | .vote m => m.FitsWire
  | .timeout m => m.FitsWire
  | .roundRecovery m => m.FitsWire
  | .noEndorsement m => m.FitsWire
  | .advanceRound m => m.FitsWire

variable {m : ProtocolMessage C.types} {message : Bytes} {tag : ℕ}

theorem reads_tagged (htag : tag < 2 ^ 8) (h : Recovers (decodeTagged tag) message m) :
    Recovers decode (encodeTagged tag message) m := by
  refine .inPayload (.bind .string (.bind (.u8 htag) ?_))
  rw [flatten_cons, flatten_nil, append_nil]
  exact h

/-- The message after its tag. -/
theorem reads_untagged {α : Type} {d : Decoder α} {wrap : α → ProtocolMessage C.types} {a : α}
    (hd : decodeTagged tag = d >>= fun a => pure (wrap a)) (h : Recovers d message a) :
    Recovers (decodeTagged tag) message (wrap a) := by
  rw [hd]
  have := h.bind (f := fun a => pure (wrap a)) (.done (wrap a))
  rwa [append_nil] at this

theorem reads (h : m.FitsWire) : Recovers decode m.encode m := by
  cases m with
  | proposal m => exact reads_tagged (by omega) <| reads_untagged rfl <| ProposalMessage.reads h
  | vote m => exact reads_tagged (by omega) <| reads_untagged rfl <| VoteMessage.reads h
  | timeout m => exact reads_tagged (by omega) <| reads_untagged rfl <| TimeoutMessage.reads h
  | roundRecovery m =>
    exact reads_tagged (by omega) <| reads_untagged rfl <| RoundRecoveryMessage.reads h
  | noEndorsement m =>
    exact reads_tagged (by omega) <| reads_untagged rfl <| NoEndorsementMessage.reads h
  | advanceRound m =>
    exact reads_tagged (by omega) <| reads_untagged rfl <| AdvanceRoundMessage.reads h

end ProtocolMessage

structure ConsensusMessage (C : Components) where
  version : ℕ
  message : ProtocolMessage C.types

namespace ConsensusMessage

def encode (m : ConsensusMessage C) : Bytes :=
  encodeList [encodeU32 m.version, m.message.encode].flatten

def decode : Decoder (ConsensusMessage C) := decodeRecord do
  let version ← decodeU32
  let message ← ProtocolMessage.decode
  return { version, message }

/-- The numbers fit their machine types, the lists are within the bounds of the decoder, and
the encoding can be addressed. -/
structure FitsWire (m : ConsensusMessage C) : Prop where
  version_lt : m.version < 2 ^ 32
  message_fits : m.message.FitsWire
  length_lt : m.encode.length < 2 ^ 64

theorem reads {m : ConsensusMessage C} (h : m.FitsWire) : Reads decode m.encode m :=
  Recovers.record (.bind (.u32 h.version_lt) <|
    .bind (ProtocolMessage.reads h.message_fits) <| .done _) h.length_lt

/-- A message is read back, to its last byte, whatever follows, and no other message has its
encoding. -/
theorem decode_encode {m : ConsensusMessage C} (h : m.FitsWire) :
    (∀ rest, decode.run (m.encode ++ rest) = .ok (m, rest)) ∧
      ∀ m' : ConsensusMessage C, m'.FitsWire → m'.encode = m.encode → m' = m :=
  ⟨reads h, fun m' h' heq => (heq ▸ reads h' : Reads decode m.encode m').unique (reads h)⟩

end ConsensusMessage

/-! ## A proposal with every optional certificate -/

namespace SampleWire

/-- Numbers of any size. -/
def natCodec : Rlp.Codec ℕ where
  encode n := encodeBytes (beBytes n)
  decode := do
    let bytes ← decodeBytes false
    leftPad (2 ^ 64) bytes
  reads n h := by
    have hlt : (beBytes n).length < 2 ^ 64 := (length_le_encodeBytes _).trans_lt h
    intro rest
    rw [(Reads.decodeBytes_string hlt).run_bind, leftPad_beBytes hlt.le]
    rfl
  encode_ne_nil n h := by
    unfold encodeBytes at h
    split at h
    next h' => simp [h] at h'
    · simp [Header.encode_ne_nil] at h

/-- All components are numbers. -/
abbrev components : Components where
  SignatureType := ℕ
  SignatureCollection := ℕ
  HeaderSignature := ℕ
  FinalizedHeader := ℕ
  ProposedHeader := ℕ
  Body := ℕ
  signature := natCodec
  signatureCollection := natCodec
  headerSignature := natCodec
  nodeId := natCodec
  finalizedHeader := natCodec
  proposedHeader := natCodec
  body := natCodec

def qc : QuorumCertificate components.types := ⟨⟨List.Vector.replicate 32 7, 300, 1⟩, 128⟩

def tip : ConsensusTip components.types where
  blockHeader := ⟨302, 1, qc, 5, 90, 10 ^ 18, List.Vector.replicate 32 9, ⟨4, [0, 200], 6, 0, 1, 2⟩⟩
  signature := 77
  freshCertificate := some (.noTip ⟨1, 301, [⟨300, 0, 3⟩], qc⟩)

/-- A proposal after a timeout certificate, with a certificate of freshness. -/
def proposal : ConsensusMessage components where
  version := 1
  message := .proposal ⟨303, 1, tip, ⟨1000⟩, some ⟨1, 302, [⟨300, 302, 3⟩], .tip tip⟩⟩

theorem decode_encode_proposal :
    ConsensusMessage.decode.run (proposal.encode ++ [0x80]) = .ok (proposal, [0x80]) := by
  have hqc : qc.FitsWire := ⟨by decide, by decide⟩
  have hheader : tip.blockHeader.FitsWire :=
    ⟨by decide, by decide, hqc, by decide, by decide, by decide, by decide, by decide, by decide⟩
  have htuples : ∀ r < 2 ^ 64, HighTipRoundSigColTuple.AllFit
      (C := components) [⟨300, r, 3⟩] := fun r hr =>
    ⟨by simp [MAX_VALIDATORS], fun t ht => mem_singleton.mp ht ▸ ⟨by simp, hr⟩⟩
  have hfresh : ∀ cert ∈ tip.freshCertificate, cert.FitsWire := by
    rintro cert ⟨⟩
    exact ⟨by decide, by decide, htuples 0 (by decide), hqc⟩
  have hproposal : proposal.message.FitsWire :=
    ⟨by decide, by decide, ⟨hheader, hfresh⟩, by
      rintro tc ⟨⟩
      exact ⟨by decide, by decide, htuples 302 (by decide), hheader, hfresh⟩⟩
  exact (ConsensusMessage.decode_encode ⟨by decide, hproposal, by decide +kernel⟩).1 [0x80]

end SampleWire

end MonadBft
