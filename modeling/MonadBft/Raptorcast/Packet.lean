import MonadBft.Memo
import MonadBft.Prog
import MonadBft.Raptorcast.Merkle
import MonadBft.Types

/-!
# Parsing and validating packets

A packet is a signature and a version, a header, the Merkle proof of a chunk, and the chunk
with its own header. The headers are views of the bytes they are read from, so they are
arrays of bytes here, with a function for each field.

`RaptorcastPacket.parse` cuts a packet into these parts. `validateChunk` checks the header
fields, recomputes the Merkle root from the chunk and recovers the author from the
signature over header and root; signatures already verified are remembered
(`SignatureVerifier`, which only holds what it recovered).

`RaptorcastPacket.parse_ok` and `validateChunk_ok` say what the proofs use of a parsed and
of an accepted packet.
-/

namespace MonadBft.Raptorcast

/-! ## Constants -/

def SIGNATURE_SIZE : ℕ := 65

def MERKLE_HASH_SIZE : ℕ := 20

def MIN_MERKLE_TREE_DEPTH : ℕ := 1

def MAX_MERKLE_TREE_DEPTH : ℕ := 9

/-- Shorter chunks are dropped, unless they are the whole message. -/
def MIN_CHUNK_LENGTH : ℕ := 960

def MAX_MESSAGE_SIZE : ℕ := 3 * 1024 * 1024

def MAX_VALIDATOR_SET_SIZE : ℕ := 200

def SIGNATURE_CACHE_SIZE : ℕ := 10000

def SOURCE_SYMBOLS_MIN : ℕ := 1

def SOURCE_SYMBOLS_MAX : ℕ := 8192

/-- A factor with 11 fractional bits. -/
structure Redundancy where
  bits : ℕ
  bits_lt : bits < 2 ^ 16

namespace Redundancy

def FRAC_BITS : ℕ := 11

def MAX_MULTIPLIER : ℕ := (2 ^ 64 - 1) / (2 ^ 16 - 1)

def fromU8 (num : ℕ) (h : num < 2 ^ 5) : Redundancy :=
  ⟨num * 2 ^ FRAC_BITS, by unfold FRAC_BITS; omega⟩

/-- The product, rounded up. -/
def scale (r : Redundancy) (base : ℕ) : Option ℕ :=
  if MAX_MULTIPLIER < base then none
  else if 2 ^ 64 ≤ r.bits * base then none
  else some ((r.bits * base + (2 ^ FRAC_BITS - 1)) / 2 ^ FRAC_BITS)

theorem scale_le {r r' : Redundancy} {base n n' : ℕ} (hr : r.bits ≤ r'.bits)
    (h : r.scale base = some n) (h' : r'.scale base = some n') : n ≤ n' := by
  unfold scale at h h'
  split at h <;> try cases h
  split at h <;> try cases h
  split at h' <;> try cases h'
  split at h' <;> try cases h'
  exact Nat.div_le_div_right (Nat.add_le_add_right (Nat.mul_le_mul_right base hr) _)

end Redundancy

def MAX_REDUNDANCY : Redundancy := .fromU8 3 (by decide)

/-! ## Headers -/

inductive BroadcastMode where
  | primary
  | secondary
  | unspecified
  deriving DecidableEq

/-- The epoch of a validator group, or the round of a group of full nodes. -/
inductive GroupId where
  | primary (epoch : ℕ)
  | secondary (round : ℕ)
  deriving DecidableEq

inductive MalformedPacket where
  | tooShort
  | tooLong
  | invalidTreeDepth (depth : ℕ)
  | invalidBroadcastBits (bits : ℕ)
  | unknownVersion (version : ℕ)
  deriving DecidableEq

/-- The header of all versions: signature and version. -/
abbrev RaptorcastHeader := ByteArrayN 67

/-- Broadcast bits and tree depth, group, timestamp, hash and length of the message. -/
abbrev RaptorcastHeaderV0 := ByteArrayN 41

/-- Recipient, leaf index, a reserved byte and the chunk's id. -/
abbrev RaptorcastChunkHeaderV0 := ByteArrayN 24

def RaptorcastHeader.version (h : RaptorcastHeader) : ℕ := leNat (h.toList.drop 65)

namespace RaptorcastHeaderV0

variable (h : RaptorcastHeaderV0)

def broadcastTreeDepth : UInt8 := h.toList.getD 0 0

def broadcast : Bool := broadcastTreeDepth h &&& 0b10000000 != 0

def secondaryBroadcast : Bool := broadcastTreeDepth h &&& 0b01000000 != 0

def treeDepth : ℕ := (broadcastTreeDepth h &&& 0b00001111).toNat

def rawGroupId : ℕ := leNat ((h.toList.drop 1).take 8)

def unixTsMs : ℕ := leNat ((h.toList.drop 9).take 8)

def appMessageHash : MerkleHash := firstBytes 20 (h.toList.drop 17)

def appMessageLen : ℕ := leNat ((h.toList.drop 37).take 4)

def merkleProofSize : ℕ := MERKLE_HASH_SIZE * (treeDepth h - 1)

def broadcastMode : Except MalformedPacket BroadcastMode :=
  match broadcast h, secondaryBroadcast h with
  | true, false => .ok .primary
  | false, true => .ok .secondary
  | false, false => .ok .unspecified
  | true, true => .error (.invalidBroadcastBits 0b11)

def groupId : Except MalformedPacket GroupId := do
  match ← broadcastMode h with
  | .primary | .unspecified => .ok (.primary (rawGroupId h))
  | .secondary => .ok (.secondary (rawGroupId h))

end RaptorcastHeaderV0

namespace RaptorcastChunkHeaderV0

variable (h : RaptorcastChunkHeaderV0)

def recipientHash : MerkleHash := firstBytes 20 h.toList

def merkleLeafIdx : UInt8 := h.toList.getD 20 0

def chunkId : ℕ := leNat ((h.toList.drop 22).take 2)

end RaptorcastChunkHeaderV0

/-! ## Parsing -/

structure RaptorcastPacketV0 where
  header : RaptorcastHeaderV0
  merkleProof : List MerkleHash
  chunkHeader : RaptorcastChunkHeaderV0
  chunkHeaderAndPayload : Bytes
  payloadOffset : ℕ
  deriving DecidableEq

def RaptorcastPacketV0.parse (rest : Bytes) : Except MalformedPacket RaptorcastPacketV0 := do
  if rest.length < 41 then .error .tooShort
  else
    let header : RaptorcastHeaderV0 := firstBytes 41 rest
    let rest := rest.drop 41
    let treeDepth := RaptorcastHeaderV0.treeDepth header
    if ¬ (MIN_MERKLE_TREE_DEPTH ≤ treeDepth ∧ treeDepth ≤ MAX_MERKLE_TREE_DEPTH) then
      .error (.invalidTreeDepth treeDepth)
    else
      let merkleProofLen := RaptorcastHeaderV0.merkleProofSize header
      if rest.length < merkleProofLen then .error .tooShort
      else
        let merkleProof := splitArrays 20 (treeDepth - 1) rest
        let chunkHeaderAndPayload := rest.drop merkleProofLen
        if chunkHeaderAndPayload.length < 24 then .error .tooShort
        else if chunkHeaderAndPayload.length = 24 then .error .tooShort
        else
          .ok { header, merkleProof, chunkHeader := firstBytes 24 chunkHeaderAndPayload
                chunkHeaderAndPayload, payloadOffset := 67 + 41 + merkleProofLen + 24 }

structure RaptorcastPacket where
  commonHeader : RaptorcastHeader
  v0 : RaptorcastPacketV0
  deriving DecidableEq

def RaptorcastPacket.parse (data : Bytes) : Except MalformedPacket RaptorcastPacket := do
  if data.length < 67 then .error .tooShort
  else
    let commonHeader : RaptorcastHeader := firstBytes 67 data
    if RaptorcastHeader.version commonHeader = 0 then do
      let v0 ← RaptorcastPacketV0.parse (data.drop 67)
      .ok { commonHeader, v0 }
    else .error (.unknownVersion (RaptorcastHeader.version commonHeader))

/-! ## Validation -/

inductive InvalidChunk where
  | malformed (err : MalformedPacket)
  | invalidAppMessageLen (len : ℕ)
  | invalidChunkLen
  | invalidChunkId
  | invalidTimestamp (packetTsMs currentTsMs : ℕ)
  | invalidMerkleProof
  | invalidSignature
  | loopback
  | rateLimited
  deriving DecidableEq

structure ChunkMeta where
  appMessageLen : ℕ
  chunkId : ℕ
  numSourceSymbols : ℕ
  encodedSymbolCapacity : ℕ
  timestamp : ℕ
  broadcastMode : BroadcastMode
  groupId : GroupId
  appMessageHash : MerkleHash
  recipientHash : MerkleHash
  signedOverData : Bytes
  deriving DecidableEq

structure ValidatedChunk where
  chunk : Bytes
  message : Bytes
  author : NodeId
  groupId : GroupId
  unixTsMs : ℕ
  appMessageHash : MerkleHash
  appMessageLen : ℕ
  broadcastMode : BroadcastMode
  recipientHash : MerkleHash
  chunkId : ℕ
  numSourceSymbols : ℕ
  encodedSymbolCapacity : ℕ
  deriving DecidableEq

def ensure {ε : Type} (cond : Prop) [Decidable cond] (err : ε) : Except ε Unit :=
  if cond then .ok () else .error err

theorem ensure_eq_ok {ε : Type} {cond : Prop} [Decidable cond] {err : ε} :
    ensure cond err = .ok () ↔ cond := by
  unfold ensure
  split <;> simp_all

/-- A packet error as an error of the chunk. -/
def liftMalformed {α : Type} : Except MalformedPacket α → Except InvalidChunk α
  | .ok a => .ok a
  | .error err => .error (.malformed err)

/-- The clock is `none` before the Unix epoch. -/
def ensureValidTimestamp (currentTsMs : Option ℕ) (packetTsMs maxAgeMs : ℕ) :
    Except InvalidChunk Unit :=
  match currentTsMs with
  | none => .ok ()
  | some currentTsMs =>
    ensure ((currentTsMs - packetTsMs) + (packetTsMs - currentTsMs) ≤ maxAgeMs)
      (.invalidTimestamp packetTsMs currentTsMs)

/-- Header and root, which the signature in the header is over. -/
def signedOverData (commonHeader : RaptorcastHeader) (header : RaptorcastHeaderV0)
    (merkleRoot : MerkleHash) : Bytes :=
  commonHeader.toList ++ header.toList ++ merkleRoot.toList

/-- What the author signed. -/
def signedMessage (data : Bytes) : Bytes := data.drop SIGNATURE_SIZE

def signatureOf (data : Bytes) : Bytes := data.take SIGNATURE_SIZE

variable (hash : Bytes → Hash)

namespace RaptorcastPacketV0

variable (packet : RaptorcastPacketV0)

def payload : Bytes := packet.chunkHeaderAndPayload.drop 24

def splitChunk (message : Bytes) : Except MalformedPacket Bytes :=
  if message.length < packet.payloadOffset then .error .tooShort
  else .ok (message.drop packet.payloadOffset)

def chunkProof : Option MerkleProof :=
  MerkleProof.newFromLeafIdx packet.merkleProof
    (RaptorcastChunkHeaderV0.merkleLeafIdx packet.chunkHeader).toNat

def computeMerkleRoot : Except InvalidChunk MerkleHash :=
  match chunkProof packet with
  | none => .error .invalidMerkleProof
  | some proof =>
    match proof.computeRoot hash (hash packet.chunkHeaderAndPayload) with
    | none => .error .invalidMerkleProof
    | some root => .ok root

def validateChunkMeta (commonHeader : RaptorcastHeader) (currentTsMs : Option ℕ)
    (maxAgeMs : ℕ) : Except InvalidChunk ChunkMeta := do
  let appMessageLen := RaptorcastHeaderV0.appMessageLen packet.header
  ensure (0 < appMessageLen ∧ appMessageLen ≤ MAX_MESSAGE_SIZE)
    (.invalidAppMessageLen appMessageLen)
  let timestamp := RaptorcastHeaderV0.unixTsMs packet.header
  ensureValidTimestamp currentTsMs timestamp maxAgeMs
  let merkleRoot ← computeMerkleRoot hash packet
  let chunkLen := (payload packet).length
  ensure (MIN_CHUNK_LENGTH ≤ chunkLen ∨ chunkLen = appMessageLen) .invalidChunkLen
  let numSourceSymbols := (appMessageLen + (chunkLen - 1)) / chunkLen
  ensure (SOURCE_SYMBOLS_MIN ≤ numSourceSymbols ∧ numSourceSymbols ≤ SOURCE_SYMBOLS_MAX)
    (.invalidAppMessageLen appMessageLen)
  match MAX_REDUNDANCY.scale numSourceSymbols with
  | none => .error .invalidChunkLen
  | some scaled => do
    let broadcastMode ← liftMalformed (RaptorcastHeaderV0.broadcastMode packet.header)
    -- a validator group may have a rounding chunk for every member
    let chunkIdCap := if broadcastMode = .primary then scaled + MAX_VALIDATOR_SET_SIZE else scaled
    let chunkId := RaptorcastChunkHeaderV0.chunkId packet.chunkHeader
    ensure (chunkId < chunkIdCap) .invalidChunkId
    let groupId ← liftMalformed (RaptorcastHeaderV0.groupId packet.header)
    .ok { appMessageLen, chunkId, numSourceSymbols, encodedSymbolCapacity := chunkIdCap
          timestamp, broadcastMode, groupId
          appMessageHash := RaptorcastHeaderV0.appMessageHash packet.header
          recipientHash := RaptorcastChunkHeaderV0.recipientHash packet.chunkHeader
          signedOverData := signedOverData commonHeader packet.header merkleRoot }

end RaptorcastPacketV0

/-! ## Signatures -/

/-- Signatures from which the author is recovered. -/
structure SignatureScheme where
  Signature : Type
  serialize : Signature → ByteArrayN 65
  deserialize : Bytes → Option Signature
  /-- The key pair is named by its public key. -/
  sign : NodeId → Bytes → Signature
  recoverPubkey : Signature → Bytes → Option NodeId

variable (scheme : SignatureScheme)

def SignatureScheme.authorOf (data : Bytes) : Option NodeId := do
  let signature ← scheme.deserialize (signatureOf data)
  scheme.recoverPubkey signature (signedMessage data)

/-- The signatures verified so far. Each is remembered with the author recovered from
it. -/
structure SignatureVerifier where
  signatureCache : Lru Bytes NodeId SIGNATURE_CACHE_SIZE
  sound : ∀ e ∈ signatureCache.entries, scheme.authorOf e.1 = some e.2

namespace SignatureVerifier

def new : SignatureVerifier scheme := ⟨.empty _ _ _, fun _ he => by cases he⟩

variable {scheme}

def loadCached (verifier : SignatureVerifier scheme) (data : Bytes) :
    Option NodeId × SignatureVerifier scheme :=
  ((verifier.signatureCache.get data).1, ⟨(verifier.signatureCache.get data).2, fun e he =>
    verifier.sound e (Lru.mem_get_snd he)⟩)

def saveCache (verifier : SignatureVerifier scheme) (data : Bytes) (author : NodeId)
    (h : scheme.authorOf data = some author) : SignatureVerifier scheme where
  signatureCache := verifier.signatureCache.put data author
  sound e he := by
    rcases Lru.mem_put he with rfl | hmem
    · exact h
    · exact verifier.sound e hmem

end SignatureVerifier

/-- What validation depends on besides the packet. -/
structure ChunkValidationEnv where
  signatureVerifier : SignatureVerifier scheme
  /-- Senders that are validators of the epoch bypass the rate limit. -/
  bypassRateLimiter : ℕ → Bool
  checkRateLimit : Bool
  currentTsMs : Option ℕ
  maxAgeMs : ℕ
  selfId : NodeId

variable {scheme}

def ChunkMeta.getEpoch (chunkMeta : ChunkMeta) : Option ℕ :=
  match chunkMeta.groupId with
  | .primary epoch => some epoch
  | .secondary _ => none

/-- The author of the signed data, and the verifier afterwards. -/
def verifySignature (env : ChunkValidationEnv scheme) (chunkMeta : ChunkMeta) :
    Except InvalidChunk NodeId × SignatureVerifier scheme :=
  let data := chunkMeta.signedOverData
  match env.signatureVerifier.loadCached data with
  | (some author, verifier) => (.ok author, verifier)
  | (none, verifier) =>
    match hs : scheme.deserialize (signatureOf data) with
    | none => (.error .invalidSignature, verifier)
    | some signature =>
      let bypass := chunkMeta.getEpoch.any env.bypassRateLimiter
      if ¬ bypass ∧ ¬ env.checkRateLimit then (.error .rateLimited, verifier)
      else
        match hr : scheme.recoverPubkey signature (signedMessage data) with
        | none => (.error .invalidSignature, verifier)
        | some author =>
          (.ok author, verifier.saveCache data author (by
            simp [SignatureScheme.authorOf, hs, hr]))

def RaptorcastPacket.validateChunkMeta (packet : RaptorcastPacket)
    (env : ChunkValidationEnv scheme) : Except InvalidChunk ChunkMeta :=
  packet.v0.validateChunkMeta hash packet.commonHeader env.currentTsMs env.maxAgeMs

/-- The chunk, if its author is known. -/
def RaptorcastPacket.finishChunk (packet : RaptorcastPacket) (message : Bytes) (selfId : NodeId)
    (chunkMeta : ChunkMeta) (author : NodeId) : Except InvalidChunk ValidatedChunk := do
  let chunk ← liftMalformed (packet.v0.splitChunk message)
  ensure (author ≠ selfId) .loopback
  .ok { chunk, message, author, groupId := chunkMeta.groupId, unixTsMs := chunkMeta.timestamp
        appMessageHash := chunkMeta.appMessageHash, appMessageLen := chunkMeta.appMessageLen
        broadcastMode := chunkMeta.broadcastMode, recipientHash := chunkMeta.recipientHash
        chunkId := chunkMeta.chunkId, numSourceSymbols := chunkMeta.numSourceSymbols
        encodedSymbolCapacity := chunkMeta.encodedSymbolCapacity }

def RaptorcastPacket.validateChunk (packet : RaptorcastPacket) (message : Bytes)
    (env : ChunkValidationEnv scheme) :
    Except InvalidChunk ValidatedChunk × SignatureVerifier scheme :=
  match packet.validateChunkMeta hash env with
  | .error err => (.error err, env.signatureVerifier)
  | .ok chunkMeta =>
    match verifySignature env chunkMeta with
    | (.error err, verifier) => (.error err, verifier)
    | (.ok author, verifier) => (packet.finishChunk message env.selfId chunkMeta author, verifier)

/-! ## What acceptance establishes -/

section Accepted

variable {hash} {packet : RaptorcastPacketV0}

/-- What a parsed packet is: its parts, one after the other, with a proof of the length
that the depth in its header gives. -/
theorem RaptorcastPacketV0.parse_ok {rest : Bytes}
    (h : RaptorcastPacketV0.parse rest = .ok packet) :
    MIN_MERKLE_TREE_DEPTH ≤ RaptorcastHeaderV0.treeDepth packet.header ∧
      RaptorcastHeaderV0.treeDepth packet.header ≤ MAX_MERKLE_TREE_DEPTH ∧
      packet.merkleProof.length = RaptorcastHeaderV0.treeDepth packet.header - 1 ∧
      packet.chunkHeader = firstBytes 24 packet.chunkHeaderAndPayload := by
  unfold RaptorcastPacketV0.parse at h
  dsimp only at h
  split_ifs at h with h1 h2 h3 h4 h5
  cases h
  exact ⟨h2.1, h2.2, length_splitArrays _ _, rfl⟩

theorem RaptorcastPacket.parse_ok {data : Bytes} {packet : RaptorcastPacket}
    (h : RaptorcastPacket.parse data = .ok packet) :
    RaptorcastPacketV0.parse (data.drop 67) = .ok packet.v0 := by
  unfold RaptorcastPacket.parse at h
  dsimp only at h
  split_ifs at h with h1 h2
  obtain ⟨v0, hv0, h⟩ := bind_eq_ok.mp h
  cases h
  exact hv0

/-- An accepted packet has a Merkle proof that leads from its chunk to a root. -/
theorem RaptorcastPacket.validateChunk_ok {packet : RaptorcastPacket} {message : Bytes}
    {env : ChunkValidationEnv scheme} {chunk : ValidatedChunk}
    (h : (packet.validateChunk hash message env).1 = .ok chunk) :
    ∃ root, packet.v0.computeMerkleRoot hash = .ok root := by
  unfold RaptorcastPacket.validateChunk at h
  cases hm : packet.validateChunkMeta hash env with
  | error err => rw [hm] at h; cases h
  | ok chunkMeta =>
    obtain ⟨_, _, hm⟩ := bind_eq_ok.mp hm
    obtain ⟨_, _, hm⟩ := bind_eq_ok.mp hm
    obtain ⟨root, hroot, _⟩ := bind_eq_ok.mp hm
    exact ⟨root, hroot⟩

theorem RaptorcastPacketV0.computeMerkleRoot_ok {root : MerkleHash}
    (h : packet.computeMerkleRoot hash = .ok root) :
    ∃ proof, packet.chunkProof = some proof ∧
      proof.computeRoot hash (hash packet.chunkHeaderAndPayload) = some root := by
  unfold RaptorcastPacketV0.computeMerkleRoot at h
  cases hp : packet.chunkProof with
  | none => rw [hp] at h; cases h
  | some proof =>
    rw [hp] at h
    dsimp only at h
    cases hr : proof.computeRoot hash (hash packet.chunkHeaderAndPayload) with
    | none => rw [hr] at h; cases h
    | some r =>
      rw [hr] at h
      exact ⟨proof, rfl, by rw [hr, Except.ok.inj h]⟩

end Accepted

end MonadBft.Raptorcast
