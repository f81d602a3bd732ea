import MonadBft.Raptorcast.Groups

/-!
# Building packets

`MessageBuilder.buildInto` cuts an application message into coded symbols, assigns each to a
first-hop recipient and writes one packet per symbol. The packets are signed in batches:
the chunks of a batch are the leaves of a Merkle tree, and the signature covers the shared
header and the root.

Who gets which chunk depends on the build target: one node, every validator, the validators
by their stake (`StakePartition`), or full nodes in turn (`EvenPartition`). A packet is
written into a zeroed buffer, field by field, at the offsets of `PacketLayout`.

The code's environment is a parameter (`BuildEnv`): hash and signatures, the symbols of a
message, the seeded shuffle and the floating-point shares of the stake. A failed assertion is
an error here.
-/

namespace MonadBft.Raptorcast

open List

/-! ## Targets and errors -/

inductive BuildTarget where
  | broadcast (group : PrimaryBroadcastGroup)
  | raptorcast (group : PrimaryBroadcastGroup)
  | pointToPoint (groupId : GroupId) (recipient : NodeId)
  | fullNodeRaptorCast (group : SecondaryBroadcastGroup)

namespace BuildTarget

def groupId : BuildTarget → GroupId
  | .broadcast group | .raptorcast group => group.groupId
  | .fullNodeRaptorCast group => group.groupId
  | .pointToPoint groupId _ => groupId

def broadcastMode : BuildTarget → BroadcastMode
  | .raptorcast _ => .primary
  | .fullNodeRaptorCast _ => .secondary
  | .broadcast _ | .pointToPoint _ _ => .unspecified

end BuildTarget

inductive BuildError where
  | merkleTreeTooShallow
  | merkleTreeTooDeep
  | chunkIdOverflow
  | encoderCreationFailed
  | chunkLengthTooSmall
  | tooManyChunks
  | appMessageTooLarge
  | zeroTotalStake
  | redundancyTooHigh
  /-- The code panics. -/
  | assertionFailed
  deriving DecidableEq

/-- What the builder takes from elsewhere. -/
structure BuildEnv where
  hash : Bytes → Hash
  scheme : SignatureScheme
  pubkeyBytes : NodeId → Bytes
  /-- The coded symbol with an id, of a message cut into symbols of a length. -/
  encodeSymbol : Bytes → (symbolLen : ℕ) → ℕ → ByteArrayN symbolLen
  shuffle : ByteArrayN 32 → ∀ {α : Type}, List α → List α
  length_shuffle : ∀ seed {α : Type} (l : List α), (shuffle seed l).length = l.length
  /-- The share of a stake in the total, times a number of symbols, rounded up. -/
  obligation : (stake totalStake numScaledSymbols : ℕ) → ℕ
  /-- The seed drawn for a group of full nodes. -/
  randomSeed : ByteArrayN 32

variable (env : BuildEnv)

/-- The truncated hash of a node's public key. -/
def BuildEnv.computeHash (node : NodeId) : MerkleHash := merkleHash env.hash (env.pubkeyBytes node)

def BuildEnv.computeAppMessageHash (message : Bytes) : MerkleHash := merkleHash env.hash message

/-! ## Assignment -/

def MAX_TRIPLES : ℕ := 65521

def MAX_NUM_PACKETS : ℕ := 65535

/-- The node each chunk goes to, by index. -/
structure ChunkAssignment where
  nodeLen : ℕ
  targets : List ℕ

/-- A chunk and the buffer of its packet. -/
structure Chunk where
  chunkId : ℕ
  recipient : NodeId
  payload : Bytes
  deriving DecidableEq

namespace ChunkAssignment

def unicast (numChunks : ℕ) : ChunkAssignment := ⟨1, List.replicate numChunks 0⟩

/-- A zeroed buffer for each chunk. -/
def materialize (assignment : ChunkAssignment) (segmentLen : ℕ) (nodes : List NodeId) :
    Except BuildError (List Chunk) := do
  ensure (assignment.nodeLen = nodes.length) .assertionFailed
  if assignment.targets = [] then .ok []
  else do
    ensure (assignment.targets.length ≤ MAX_TRIPLES) .tooManyChunks
    .ok (assignment.targets.zipIdx.filterMap fun (target, chunkId) =>
      (nodes[target]?).map fun recipient =>
        { chunkId, recipient, payload := List.replicate segmentLen 0 })

end ChunkAssignment

def Redundancy.scaleChunks (r : Redundancy) (numBaseSymbols : ℕ) : Except BuildError ℕ :=
  match r.scale numBaseSymbols with
  | none => .error .tooManyChunks
  | some n => .ok n

/-- Chunks for full nodes, in turn. -/
def EvenPartition.assign (nodes : List NodeId) (numBaseSymbols : ℕ) (redundancy : Redundancy) :
    Except BuildError ChunkAssignment := do
  let numSymbols ← redundancy.scaleChunks numBaseSymbols
  if nodes.length = 0 then .ok ⟨nodes.length, []⟩
  else .ok ⟨nodes.length, (List.range numSymbols).map (· % nodes.length)⟩

namespace StakePartition

/-- The validators without the author, with their stake. -/
def fromGroup (group : PrimaryBroadcastGroup) : List (NodeId × ℕ) :=
  let validators := group.group.validators.filter fun v => decide (v.1 ≠ group.author)
  if (validators.map Prod.snd).sum = 0 then [] else validators

/-- One round of the round robin: the indices that get a chunk, and what is left to
assign. -/
def roundRobinPass (remaining : List (ℕ × ℕ)) : List ℕ × List (ℕ × ℕ) :=
  ((remaining.filter fun r => decide (r.2 ≠ 0)).map Prod.fst,
    remaining.filterMap fun r => if 1 < r.2 then some (r.1, r.2 - 1) else none)

/-- What is left to assign, and by how many. -/
def work (remaining : List (ℕ × ℕ)) : ℕ := (remaining.map fun r => r.2 + 1).sum

theorem work_roundRobinPass (remaining : List (ℕ × ℕ)) :
    work (roundRobinPass remaining).2 + remaining.length ≤ work remaining := by
  induction remaining with
  | nil => rfl
  | cons r rs ih =>
    simp only [roundRobinPass, work] at ih ⊢
    rw [filterMap_cons]
    by_cases h : 1 < r.2
    · simp only [h, if_true, map_cons, sum_cons, length_cons]
      omega
    · simp only [h, if_false, map_cons, sum_cons, length_cons]
      omega

/-- Give a chunk to each validator in turn until all have theirs. The last one gets the
rest at once. -/
def roundRobin (remaining : List (ℕ × ℕ)) : List ℕ :=
  match _h : remaining with
  | [] => []
  | [(nodeIdx, rem)] => List.replicate rem nodeIdx
  | _ :: _ :: _ =>
    (roundRobinPass remaining).1 ++ roundRobin (roundRobinPass remaining).2
termination_by work remaining
decreasing_by
  have hw := work_roundRobinPass remaining
  have hlen : 2 ≤ remaining.length := by rw [_h]; simp
  rw [← _h]
  omega

def assign (validators : List (NodeId × ℕ)) (numBaseSymbols : ℕ) (redundancy : Redundancy) :
    Except BuildError ChunkAssignment := do
  if validators = [] then .ok ⟨0, []⟩
  else do
    let numScaledSymbols ← redundancy.scaleChunks numBaseSymbols
    let capacity := numScaledSymbols + validators.length
    let totalStake := (validators.map Prod.snd).sum
    let remaining := validators.zipIdx.map fun (v, i) =>
      (i, env.obligation v.2 totalStake numScaledSymbols)
    let targets := roundRobin remaining
    ensure (numScaledSymbols ≤ targets.length) .assertionFailed
    ensure (targets.length ≤ capacity) .assertionFailed
    .ok ⟨validators.length, targets⟩

end StakePartition

/-! ## Layout -/

/-- Signature, version, broadcast bits and depth, group, timestamp, hash and length. -/
def HEADER_LEN : ℕ := 65 + 2 + 1 + 8 + 8 + 20 + 4

/-- Recipient, leaf index, reserved byte and chunk id. -/
def CHUNK_HEADER_LEN : ℕ := 20 + 1 + 1 + 2

structure PacketLayout where
  chunkHeaderStart : ℕ
  segmentLen : ℕ

namespace PacketLayout

def calcMerkleProofLen (merkleTreeDepth : ℕ) : ℕ := (merkleTreeDepth - 1) * MERKLE_HASH_SIZE

def new (segmentLen merkleTreeDepth : ℕ) : PacketLayout :=
  ⟨HEADER_LEN + calcMerkleProofLen merkleTreeDepth, segmentLen⟩

def calcSegmentLen (chunkLen merkleTreeDepth : ℕ) : ℕ :=
  HEADER_LEN + calcMerkleProofLen merkleTreeDepth + CHUNK_HEADER_LEN + chunkLen

variable (layout : PacketLayout)

def symbolStart : ℕ := layout.chunkHeaderStart + CHUNK_HEADER_LEN

def symbolLen : ℕ := layout.segmentLen - layout.symbolStart

def numBaseSymbols (appMessageLen : ℕ) : ℕ :=
  (appMessageLen + (layout.symbolLen - 1)) / layout.symbolLen

def merkleTreeDepth : ℕ := (layout.chunkHeaderStart - HEADER_LEN) / MERKLE_HASH_SIZE + 1

def merkleBatchLen : ℕ := 2 ^ (layout.merkleTreeDepth - 1)

def symbol (chunk : Chunk) : Bytes := (chunk.payload.take layout.segmentLen).drop layout.symbolStart

def writeSymbol (chunk : Chunk) (symbol : Bytes) : Chunk :=
  { chunk with payload := writeAt chunk.payload layout.symbolStart symbol }

/-- Signature, then the rest of the header. -/
def writeHeader (chunk : Chunk) (signature : ByteArrayN 65) (header : Bytes) : Chunk :=
  { chunk with payload := writeAt (writeAt chunk.payload 0 signature.toList) SIGNATURE_SIZE header }

/-- Recipient, leaf index and chunk id. The reserved byte is left as it is. -/
def writeChunkHeader (chunk : Chunk) (merkleLeafIndex : UInt8) : Except BuildError Chunk := do
  ensure (chunk.chunkId < 2 ^ 16) .chunkIdOverflow
  let start := layout.chunkHeaderStart
  let payload := writeAt chunk.payload start (env.computeHash chunk.recipient).toList
  let payload := writeAt payload (start + 20) [merkleLeafIndex]
  let payload := writeAt payload (start + 22) (leBytes 2 chunk.chunkId)
  .ok { chunk with payload }

def writeMerkleProof (chunk : Chunk) (proof : List MerkleHash) : Chunk :=
  { chunk with payload := writeAt chunk.payload HEADER_LEN (proof.flatMap List.Vector.toList) }

def chunkHash (chunk : Chunk) : Hash :=
  env.hash ((chunk.payload.take layout.segmentLen).drop layout.chunkHeaderStart)

end PacketLayout

/-! ## Chunks of a target -/

def deriveSeed (appMessageHash : MerkleHash) : ByteArrayN 32 := firstBytes 32 appMessageHash.toList

/-- Chunks for every validator but the author. -/
def broadcastChunks (assignment : ChunkAssignment) (segmentLen : ℕ) (recipients : List NodeId) :
    Except BuildError (List Chunk) := do
  let chunks ← recipients.mapM fun recipient => assignment.materialize segmentLen [recipient]
  .ok chunks.flatten

def chunksFor (target : BuildTarget) (selfNodeId : NodeId) (appMessageHash : MerkleHash)
    (numBaseSymbols : ℕ) (redundancy : Redundancy) (segmentLen : ℕ) :
    Except BuildError (List Chunk) :=
  match target with
  | .pointToPoint _ recipient =>
    if recipient = selfNodeId then .ok []
    else do
      let numSymbols ← redundancy.scaleChunks numBaseSymbols
      ensure (numSymbols ≤ MAX_TRIPLES) .tooManyChunks
      (ChunkAssignment.unicast numSymbols).materialize segmentLen [recipient]
  | .broadcast group => do
    let numSymbols ← redundancy.scaleChunks numBaseSymbols
    ensure (numSymbols ≤ MAX_TRIPLES) .tooManyChunks
    let recipients := group.group.getMembers.filter fun node => decide (node ≠ selfNodeId)
    broadcastChunks (ChunkAssignment.unicast numSymbols) segmentLen recipients
  | .raptorcast group => do
    let partition := env.shuffle (deriveSeed appMessageHash) (StakePartition.fromGroup group)
    let assignment ← StakePartition.assign env partition numBaseSymbols redundancy
    assignment.materialize segmentLen (partition.map Prod.fst)
  | .fullNodeRaptorCast group => do
    let partition := env.shuffle env.randomSeed group.group.fullNodes
    let assignment ← EvenPartition.assign partition numBaseSymbols redundancy
    assignment.materialize segmentLen partition

def generateChunks (target : BuildTarget) (selfNodeId : NodeId) (appMessageHash : MerkleHash)
    (numBaseSymbols : ℕ) (redundancy : Redundancy) (layout : PacketLayout) :
    Except BuildError (List Chunk) := do
  let chunks ← chunksFor env target selfNodeId appMessageHash numBaseSymbols redundancy
    layout.segmentLen
  ensure (chunks.length ≤ MAX_NUM_PACKETS) .tooManyChunks
  .ok chunks

/-! ## Symbols -/

/-- The symbol of the next chunk: coded at the first chunk with its id, copied from there
later. The table holds one plus the index of that chunk. -/
def encodeStep (appMessage : Bytes) (layout : PacketLayout) (acc : List Chunk × List ℕ)
    (chunk : Chunk) : Except BuildError (List Chunk × List ℕ) :=
  match acc.2[chunk.chunkId]? with
  | none => .error .assertionFailed
  | some 0 =>
    let symbol := env.encodeSymbol appMessage layout.symbolLen chunk.chunkId
    .ok (acc.1 ++ [layout.writeSymbol chunk symbol.toList],
      acc.2.set chunk.chunkId (acc.1.length + 1))
  | some (j + 1) =>
    match acc.1[j]? with
    | none => .error .assertionFailed
    | some src => .ok (acc.1 ++ [layout.writeSymbol chunk (layout.symbol src)], acc.2)

/-- The number of source symbols of the encoder. -/
def encoderSymbols (len symbolLen : ℕ) : ℕ :=
  max SOURCE_SYMBOLS_MIN (len / symbolLen + if len % symbolLen = 0 then 0 else 1)

def encodeSymbols (appMessage : Bytes) (chunks : List Chunk) (layout : PacketLayout) :
    Except BuildError (List Chunk) := do
  ensure (layout.symbolLen ≠ 0) .encoderCreationFailed
  ensure (encoderSymbols appMessage.length layout.symbolLen ≤ SOURCE_SYMBOLS_MAX)
    .encoderCreationFailed
  let acc ← chunks.foldlM (encodeStep env appMessage layout)
    ([], List.replicate chunks.length 0)
  .ok acc.1

/-! ## Merkle batches -/

/-- Consecutive batches of `n` chunks, the last one perhaps shorter. -/
def merkleBatches (n : ℕ) (chunks : List Chunk) : List (List Chunk) :=
  if _h : chunks = [] ∨ n = 0 then []
  else chunks.take n :: merkleBatches n (chunks.drop n)
termination_by chunks.length
decreasing_by
  rw [not_or] at _h
  have hpos : 0 < chunks.length := length_pos_iff.mpr _h.1
  rw [length_drop]
  omega

/-- Sign a batch and write the headers of its packets. -/
def writeBatchHeader (layout : PacketLayout) (key : NodeId) (header : Bytes)
    (batch : List Chunk) : Except BuildError (List Chunk) := do
  let chunks ← batch.zipIdx.mapM fun (chunk, leafIndex) =>
    layout.writeChunkHeader env chunk (UInt8.ofNat leafIndex)
  let tree := MerkleTree.newWithDepth env.hash (chunks.map (layout.chunkHash env))
    layout.merkleTreeDepth
  let signature := env.scheme.serialize (env.scheme.sign key (header ++ tree.root.toList))
  .ok (chunks.zipIdx.map fun (chunk, leafIndex) =>
    PacketLayout.writeMerkleProof (PacketLayout.writeHeader chunk signature header)
      (tree.proof leafIndex).siblings)

def VERSION : ℕ := 0

/-- The bits of the broadcast mode and the depth. -/
def broadcastByte (broadcastMode : BroadcastMode) (merkleTreeDepth : ℕ) : UInt8 :=
  let bits : UInt8 :=
    match broadcastMode with
    | .primary => 0b10000000
    | .secondary => 0b01000000
    | .unspecified => 0
  bits ||| (UInt8.ofNat merkleTreeDepth &&& 0b00001111)

def GroupId.toU64 : GroupId → ℕ
  | .primary epoch => epoch
  | .secondary round => round

/-- The shared header without the signature. -/
def buildHeader (broadcastMode : BroadcastMode) (merkleTreeDepth : ℕ) (groupId : GroupId)
    (unixTsMs : ℕ) (appMessageHash : MerkleHash) (appMessageLen : ℕ) :
    Except BuildError Bytes := do
  ensure (UInt8.ofNat merkleTreeDepth &&& 0b11110000 = 0) .merkleTreeTooDeep
  ensure (appMessageLen < 2 ^ 32) .appMessageTooLarge
  .ok (leBytes 2 VERSION ++ [broadcastByte broadcastMode merkleTreeDepth] ++
    leBytes 8 groupId.toU64 ++ leBytes 8 unixTsMs ++ appMessageHash.toList ++
    leBytes 4 appMessageLen)

/-! ## Whole messages -/

structure UdpMessage where
  recipient : NodeId
  payload : Bytes
  stride : ℕ
  deriving DecidableEq

def Chunk.toUdpMessage (chunk : Chunk) : UdpMessage :=
  ⟨chunk.recipient, chunk.payload, chunk.payload.length⟩

/-- The packets of the chunks. A batch that fails fails the whole. -/
def assemble (chunks : List Chunk) (key : NodeId) (layout : PacketLayout) (appMessage : Bytes)
    (header : Bytes) : Except BuildError (List UdpMessage) := do
  let chunks ← encodeSymbols env appMessage chunks layout
  let batches ← (merkleBatches layout.merkleBatchLen chunks).mapM
    (writeBatchHeader env layout key header)
  .ok (batches.flatten.map Chunk.toUdpMessage)

def buildPackets (key : NodeId) (layout : PacketLayout) (redundancy : Redundancy)
    (unixTsMs : ℕ) (appMessage : Bytes) (target : BuildTarget) :
    Except BuildError (List UdpMessage) := do
  let appMessageHash := env.computeAppMessageHash appMessage
  let numBaseSymbols := layout.numBaseSymbols appMessage.length
  let chunks ← generateChunks env target key appMessageHash numBaseSymbols redundancy layout
  if chunks = [] then .ok []
  else do
    let header ← buildHeader target.broadcastMode layout.merkleTreeDepth target.groupId unixTsMs
      appMessageHash appMessage.length
    assemble env chunks key layout appMessage header

structure MessageBuilder where
  key : NodeId
  redundancy : Option Redundancy
  unixTsMs : ℕ
  segmentSize : ℕ
  merkleTreeDepth : ℕ

namespace MessageBuilder

variable (builder : MessageBuilder)

def unwrapRedundancy : Except BuildError Redundancy :=
  match builder.redundancy with
  | none => .error .assertionFailed
  | some redundancy =>
    if MAX_REDUNDANCY.bits < redundancy.bits then .error .redundancyTooHigh else .ok redundancy

def unwrapMerkleTreeDepth : Except BuildError ℕ :=
  if builder.merkleTreeDepth < MIN_MERKLE_TREE_DEPTH then .error .merkleTreeTooShallow
  else if MAX_MERKLE_TREE_DEPTH < builder.merkleTreeDepth then .error .merkleTreeTooDeep
  else .ok builder.merkleTreeDepth

def buildInto (appMessage : Bytes) (target : BuildTarget) :
    Except BuildError (List UdpMessage) := do
  let depth ← builder.unwrapMerkleTreeDepth
  let redundancy ← builder.unwrapRedundancy
  ensure (appMessage.length ≤ MAX_MESSAGE_SIZE) .appMessageTooLarge
  buildPackets env builder.key (PacketLayout.new builder.segmentSize depth) redundancy
    builder.unixTsMs appMessage target

end MessageBuilder

end MonadBft.Raptorcast
