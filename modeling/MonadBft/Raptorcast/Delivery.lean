import Mathlib.Data.List.GetD
import Mathlib.Tactic.IntervalCases
import MonadBft.Raptorcast.Authenticity
import MonadBft.Raptorcast.BuiltBytes

/-!
# Built packets are accepted

The writer of a packet and its reader compute offsets, Merkle batches, leaf indices and the
bound on chunk ids independently. `delivered_of_buildInto`: every packet that
`MessageBuilder.buildInto` makes is parsed, its recomputed root is the signed one, and a
receiver other than the author accepts it with the fields that were written.

`parse_packetBytes` reads a packet back, `computeMerkleRoot_builtPacket` recomputes the root
of its batch, `validateChunkMeta_builtPacket` goes through the checks of the receiver.

Two conditions are needed. A receiver refuses to verify signatures that come too fast
(`ChunkValidationEnv.Admits`). And a point-to-point packet names its group by an epoch
(`BuildTarget.NamesEpoch`): one for a round of a group of full nodes arrives with the round
as an epoch.
-/

namespace MonadBft.Raptorcast

open List RaptorcastHeaderV0 RaptorcastChunkHeaderV0 PacketLayout

open RaptorcastHeaderV0 (merkleProofSize treeDepth)

variable {env : BuildEnv} {redundancy : Redundancy} {header : RaptorcastHeaderV0}
  {signature : ByteArrayN 65} {symbol : Bytes} {author : NodeId} {chunkMeta : ChunkMeta}
  {target : BuildTarget} {base scaled len i n : ℕ} {leaves : List Hash} {tree : MerkleTree}

/-! ## Headers -/

section Headers

variable {broadcastMode : BroadcastMode} {depth unixTsMs appMessageLen : ℕ} {groupId : GroupId}
  {appMessageHash : MerkleHash}

/-- The header without signature and version. -/
def headerOf (broadcastMode : BroadcastMode) (depth : ℕ) (groupId : GroupId) (unixTsMs : ℕ)
    (appMessageHash : MerkleHash) (appMessageLen : ℕ) : RaptorcastHeaderV0 :=
  ⟨[broadcastByte broadcastMode depth] ++ leBytes 8 groupId.toU64 ++ leBytes 8 unixTsMs ++
    appMessageHash.toList ++ leBytes 4 appMessageLen, by simp⟩

theorem buildHeader_ok {header : Bytes}
    (h : buildHeader broadcastMode depth groupId unixTsMs appMessageHash appMessageLen =
      .ok header) :
    header = leBytes 2 VERSION ++
      (headerOf broadcastMode depth groupId unixTsMs appMessageHash appMessageLen).toList := by
  obtain ⟨_, -, h⟩ := bind_eq_ok.mp h
  obtain ⟨_, -, h⟩ := bind_eq_ok.mp h
  cases h
  simp [headerOf]

section Fields

variable (broadcastMode depth groupId unixTsMs appMessageHash appMessageLen)

/-- The fields of the header, one after the other. -/
theorem toList_headerOf :
    (headerOf broadcastMode depth groupId unixTsMs appMessageHash appMessageLen).toList =
      broadcastByte broadcastMode depth :: (leBytes 8 groupId.toU64 ++ (leBytes 8 unixTsMs ++
        (appMessageHash.toList ++ leBytes 4 appMessageLen))) := by
  simp [headerOf]

end Fields

open RaptorcastHeaderV0

theorem treeDepth_headerOf (hmin : MIN_MERKLE_TREE_DEPTH ≤ depth)
    (hmax : depth ≤ MAX_MERKLE_TREE_DEPTH) :
    treeDepth (headerOf broadcastMode depth groupId unixTsMs appMessageHash appMessageLen) =
      depth := by
  unfold MAX_MERKLE_TREE_DEPTH at hmax
  rw [treeDepth, broadcastTreeDepth, toList_headerOf, getD_cons_zero]
  interval_cases depth <;> cases broadcastMode <;> rfl

theorem broadcastMode_headerOf (hmax : depth ≤ MAX_MERKLE_TREE_DEPTH) :
    RaptorcastHeaderV0.broadcastMode
      (headerOf broadcastMode depth groupId unixTsMs appMessageHash appMessageLen) =
      .ok broadcastMode := by
  unfold MAX_MERKLE_TREE_DEPTH at hmax
  rw [RaptorcastHeaderV0.broadcastMode, broadcast, secondaryBroadcast, broadcastTreeDepth,
    toList_headerOf, getD_cons_zero]
  interval_cases depth <;> cases broadcastMode <;> rfl

theorem rawGroupId_headerOf (h : groupId.toU64 < 2 ^ 64) :
    rawGroupId (headerOf broadcastMode depth groupId unixTsMs appMessageHash appMessageLen) =
      groupId.toU64 := by
  rw [rawGroupId, toList_headerOf, drop_one, tail_cons,
    take_left' (length_leBytes _ _), leNat_leBytes h]

theorem unixTsMs_headerOf (h : unixTsMs < 2 ^ 64) :
    RaptorcastHeaderV0.unixTsMs
      (headerOf broadcastMode depth groupId unixTsMs appMessageHash appMessageLen) = unixTsMs := by
  rw [RaptorcastHeaderV0.unixTsMs, toList_headerOf, drop_succ_cons,
    drop_left' (length_leBytes _ _), take_left' (length_leBytes _ _), leNat_leBytes h]

theorem appMessageHash_headerOf :
    RaptorcastHeaderV0.appMessageHash
      (headerOf broadcastMode depth groupId unixTsMs appMessageHash appMessageLen) =
      appMessageHash := by
  rw [RaptorcastHeaderV0.appMessageHash, toList_headerOf, drop_succ_cons,
    show 16 = 8 + 8 from rfl, ← drop_drop, drop_left' (length_leBytes _ _),
    drop_left' (length_leBytes _ _), firstBytes_append]

theorem appMessageLen_headerOf (h : appMessageLen < 2 ^ 32) :
    RaptorcastHeaderV0.appMessageLen
      (headerOf broadcastMode depth groupId unixTsMs appMessageHash appMessageLen) =
      appMessageLen := by
  rw [RaptorcastHeaderV0.appMessageLen, toList_headerOf, drop_succ_cons,
    show 36 = 8 + (8 + 20) from rfl, ← drop_drop, ← drop_drop,
    drop_left' (length_leBytes _ _), drop_left' (length_leBytes _ _),
    drop_left' appMessageHash.toList_length, take_of_length_le (by simp),
    leNat_leBytes h]

end Headers

section ChunkHeaders

variable {chunk : Chunk} {leafIndex : UInt8}

open RaptorcastChunkHeaderV0

theorem recipientHash_chunkHeaderOf :
    recipientHash (chunkHeaderOf env chunk leafIndex) = env.computeHash chunk.recipient := by
  change firstBytes 20 ((env.computeHash chunk.recipient).toList ++ [leafIndex, 0] ++
    leBytes 2 chunk.chunkId) = _
  rw [append_assoc, firstBytes_append]

theorem merkleLeafIdx_chunkHeaderOf :
    merkleLeafIdx (chunkHeaderOf env chunk leafIndex) = leafIndex := by
  change ((env.computeHash chunk.recipient).toList ++ [leafIndex, 0] ++
    leBytes 2 chunk.chunkId).getD 20 0 = _
  rw [append_assoc, getD_append_right _ _ _ _ (by simp), List.Vector.toList_length]
  rfl

theorem chunkId_chunkHeaderOf (h : chunk.chunkId < 2 ^ 16) :
    chunkId (chunkHeaderOf env chunk leafIndex) = chunk.chunkId := by
  change leNat ((((env.computeHash chunk.recipient).toList ++ [leafIndex, 0] ++
    leBytes 2 chunk.chunkId).drop 22).take 2) = _
  rw [drop_left' (by simp), take_of_length_le (by simp), leNat_leBytes h]

end ChunkHeaders

/-! ## Parsing -/

section Parsing

variable {signature : ByteArrayN 65} {header : RaptorcastHeaderV0} {proof : List MerkleHash}
  {chunkHeader : RaptorcastChunkHeaderV0} {symbol : Bytes}

/-- The packet that is read. -/
def builtPacket (signature : ByteArrayN 65) (header : RaptorcastHeaderV0)
    (proof : List MerkleHash) (chunkHeader : RaptorcastChunkHeaderV0) (symbol : Bytes) :
    RaptorcastPacket where
  commonHeader := ⟨signature.toList ++ leBytes 2 VERSION, by simp⟩
  v0 :=
    { header, merkleProof := proof, chunkHeader
      chunkHeaderAndPayload := chunkHeader.toList ++ symbol
      payloadOffset := 67 + 41 + merkleProofSize header + 24 }

section

variable (hmin : MIN_MERKLE_TREE_DEPTH ≤ treeDepth header)
  (hmax : treeDepth header ≤ MAX_MERKLE_TREE_DEPTH)
  (hproof : proof.length = treeDepth header - 1) (hsymbol : symbol ≠ [])

include hmin hmax hproof hsymbol

theorem parse_v0 :
    RaptorcastPacketV0.parse (header.toList ++ (proof.flatMap List.Vector.toList ++
      (chunkHeader.toList ++ symbol))) =
      .ok (builtPacket signature header proof chunkHeader symbol).v0 := by
  have hsize : (proof.flatMap List.Vector.toList).length = merkleProofSize header := by
    rw [length_flatMap_toList, hproof, merkleProofSize, MERKLE_HASH_SIZE, Nat.mul_comm]
  unfold RaptorcastPacketV0.parse
  dsimp only
  rw [firstBytes_append, drop_left' header.toList_length, ← hproof, splitArrays_flatMap,
    drop_left' hsize, firstBytes_append, if_neg (by simp), if_neg (by simp [hmin, hmax]),
    if_neg (by rw [length_append]; omega), if_neg (by simp),
    if_neg (by simp; omega)]
  rfl

/-- A packet is read back from its bytes. -/
theorem parse_packetBytes :
    RaptorcastPacket.parse (packetBytes signature (leBytes 2 VERSION ++ header.toList) proof
      chunkHeader symbol) = .ok (builtPacket signature header proof chunkHeader symbol) := by
  set packet := builtPacket signature header proof chunkHeader symbol with hpacket
  have hbytes : packetBytes signature (leBytes 2 VERSION ++ header.toList) proof chunkHeader
      symbol = packet.commonHeader.toList ++ (header.toList ++
        (proof.flatMap List.Vector.toList ++ (chunkHeader.toList ++ symbol))) := by
    simp [packetBytes, hpacket, builtPacket]
  have hversion : RaptorcastHeader.version packet.commonHeader = 0 := by
    change leNat ((signature.toList ++ leBytes 2 VERSION).drop 65) = 0
    rw [drop_left' signature.toList_length]
    rfl
  have hv0 : RaptorcastPacketV0.parse (header.toList ++ (proof.flatMap List.Vector.toList ++
      (chunkHeader.toList ++ symbol))) = .ok packet.v0 := parse_v0 hmin hmax hproof hsymbol
  unfold RaptorcastPacket.parse
  rw [hbytes, if_neg (by simp), firstBytes_append, if_pos hversion,
    drop_left' packet.commonHeader.toList_length, hv0]
  rfl

end

end Parsing

/-! ## Validation -/

/-- The root recomputed from a leaf of a batch is the root of the batch. -/
theorem computeMerkleRoot_builtPacket {depth : ℕ} {chunk : Chunk}
    (hbuilt : MerkleTree.Built env.hash leaves depth tree) (hpos : 0 < depth)
    (hmax : depth ≤ MAX_MERKLE_TREE_DEPTH) (hi : i < 2 ^ (depth - 1))
    (hleaf : leaves[i]? = some (env.hash
      ((chunkHeaderOf env chunk (UInt8.ofNat i)).toList ++ symbol))) :
    (builtPacket signature header (tree.proof i).siblings
      (chunkHeaderOf env chunk (UInt8.ofNat i)) symbol).v0.computeMerkleRoot env.hash =
      .ok tree.root := by
  unfold MAX_MERKLE_TREE_DEPTH at hmax
  have hpow : 2 ^ (depth - 1) ≤ 2 ^ 8 := Nat.pow_le_pow_right (by omega) (by omega)
  have hidx : (UInt8.ofNat i).toNat = i := by
    rw [UInt8.toNat_ofNat', Nat.mod_eq_of_lt (by omega)]
  have hproof : (builtPacket signature header (tree.proof i).siblings
      (chunkHeaderOf env chunk (UInt8.ofNat i)) symbol).v0.chunkProof = some (tree.proof i) := by
    change MerkleProof.newFromLeafIdx (tree.proof i).siblings
      (merkleLeafIdx
        (chunkHeaderOf env chunk (UInt8.ofNat i))).toNat = _
    rw [merkleLeafIdx_chunkHeaderOf, hidx]
    exact hbuilt.newFromLeafIdx_siblings hi (by unfold MAX_DEPTH; omega) hpos
  unfold RaptorcastPacketV0.computeMerkleRoot
  rw [hproof]
  dsimp only [builtPacket]
  rw [hbuilt.computeRoot_proof hleaf hi]

/-- Signatures are read back, and those of the key give its owner. -/
structure SignatureScheme.Correct (scheme : SignatureScheme) (key : NodeId) : Prop where
  deserialize_serialize : ∀ s, scheme.deserialize (scheme.serialize s).toList = some s
  recoverPubkey_sign : ∀ m, scheme.recoverPubkey (scheme.sign key m) m = some key

/-- The receiver gets to verify the signature of a packet for the group, whatever came
before. -/
def ChunkValidationEnv.Admits {scheme : SignatureScheme} (receiver : ChunkValidationEnv scheme)
    (groupId : GroupId) : Prop :=
  receiver.checkRateLimit = true ∨
    ∃ epoch, groupId = .primary epoch ∧ receiver.bypassRateLimiter epoch = true

/-- Signed data gives its author, remembered or recovered. -/
theorem verifySignature_ok {scheme : SignatureScheme} {receiver : ChunkValidationEnv scheme}
    (hauthor : scheme.authorOf chunkMeta.signedOverData = some author)
    (hadmits : receiver.Admits chunkMeta.groupId) :
    ∃ verifier, verifySignature receiver chunkMeta = (.ok author, verifier) := by
  have hbypass : ¬ (¬ (chunkMeta.getEpoch.any receiver.bypassRateLimiter = true) ∧
      ¬ receiver.checkRateLimit = true) := by
    rintro ⟨hno, hlimit⟩
    rcases hadmits with h | ⟨epoch, hepoch, h⟩
    · exact hlimit h
    · exact hno (by simp [ChunkMeta.getEpoch, hepoch, h])
  obtain ⟨signature, hsig, hrec⟩ := Option.bind_eq_some_iff.mp hauthor
  unfold verifySignature
  dsimp only
  split
  next a verifier hload =>
    have hget : (receiver.signatureVerifier.signatureCache.get chunkMeta.signedOverData).1 =
        some a := congrArg Prod.fst hload
    have hsound := receiver.signatureVerifier.sound _ (Lru.mem_of_get hget)
    rw [hauthor] at hsound
    cases hsound
    exact ⟨verifier, rfl⟩
  · split
    next h => rw [hsig] at h; cases h
    next s h =>
      rw [hsig] at h
      cases h
      rw [if_neg hbypass]
      split
      next h => rw [hrec] at h; cases h
      next a h =>
        rw [hrec] at h
        cases h
        exact ⟨_, rfl⟩

/-- The bound on chunk ids that a receiver computes. -/
def chunkIdCap (broadcastMode : BroadcastMode) (scaled : ℕ) : ℕ :=
  if broadcastMode = .primary then scaled + MAX_VALIDATOR_SET_SIZE else scaled

/-- A packet passes the checks of its header. -/
theorem validateChunkMeta_builtPacket {proof : List MerkleHash}
    {chunkHeader : RaptorcastChunkHeaderV0} {receiver : ChunkValidationEnv env.scheme}
    {root : MerkleHash} {broadcastMode : BroadcastMode} {groupId : GroupId}
    (hmsgLen : appMessageLen header = len)
    (hbase : (len + (symbol.length - 1)) / symbol.length = base)
    (hlen : 0 < len ∧ len ≤ MAX_MESSAGE_SIZE)
    (hts : ensureValidTimestamp receiver.currentTsMs (unixTsMs header)
      receiver.maxAgeMs = .ok ())
    (hroot : (builtPacket signature header proof chunkHeader symbol).v0.computeMerkleRoot
      env.hash = .ok root)
    (hchunk : MIN_CHUNK_LENGTH ≤ symbol.length)
    (hnum : SOURCE_SYMBOLS_MIN ≤ base ∧ base ≤ SOURCE_SYMBOLS_MAX)
    (hscaled : MAX_REDUNDANCY.scale base = some scaled)
    (hmode : RaptorcastHeaderV0.broadcastMode header = .ok broadcastMode)
    (hid : chunkId chunkHeader < chunkIdCap broadcastMode scaled)
    (hgroup : RaptorcastHeaderV0.groupId header = .ok groupId) :
    (builtPacket signature header proof chunkHeader symbol).validateChunkMeta env.hash receiver =
      .ok { appMessageLen := len
            chunkId := chunkId chunkHeader
            numSourceSymbols := base
            encodedSymbolCapacity := chunkIdCap broadcastMode scaled
            timestamp := unixTsMs header
            broadcastMode, groupId
            appMessageHash := appMessageHash header
            recipientHash := recipientHash chunkHeader
            signedOverData := signedOverData
              (builtPacket signature header proof chunkHeader symbol).commonHeader header root } := by
  subst hmsgLen hbase
  have hpay : (builtPacket signature header proof chunkHeader symbol).v0.payload = symbol :=
    drop_left' chunkHeader.toList_length
  unfold RaptorcastPacket.validateChunkMeta RaptorcastPacketV0.validateChunkMeta
  rw [hroot, hpay]
  dsimp only [builtPacket]
  rw [ensure_eq_ok.mpr hlen, hts, ensure_eq_ok.mpr (.inl hchunk), ensure_eq_ok.mpr hnum, hscaled,
    hmode, hgroup]
  change (do
    ensure (_ < chunkIdCap broadcastMode scaled) _
    _) = _
  rw [ensure_eq_ok.mpr hid]
  rfl

/-! ## Delivery -/

section Layout

variable {segmentLen depth : ℕ}

/-- What the offsets of a layout with room for a chunk are. -/
structure Roomy (layout : PacketLayout) (depth : ℕ) : Prop where
  start_eq : layout.chunkHeaderStart = HEADER_LEN + (depth - 1) * 20
  depth_eq : layout.merkleTreeDepth = depth
  start_le : layout.symbolStart ≤ layout.segmentLen
  symbol_le : MIN_CHUNK_LENGTH ≤ layout.symbolLen

theorem roomy_new (hpos : 0 < depth) (h : calcSegmentLen MIN_CHUNK_LENGTH depth ≤ segmentLen) :
    Roomy (PacketLayout.new segmentLen depth) depth := by
  unfold calcSegmentLen calcMerkleProofLen MERKLE_HASH_SIZE at h
  refine ⟨rfl, ?_, ?_, ?_⟩
  · change (HEADER_LEN + (depth - 1) * 20 - HEADER_LEN) / 20 + 1 = depth
    omega
  · change HEADER_LEN + (depth - 1) * 20 + CHUNK_HEADER_LEN ≤ segmentLen
    omega
  · change MIN_CHUNK_LENGTH ≤ segmentLen - (HEADER_LEN + (depth - 1) * 20 + CHUNK_HEADER_LEN)
    omega

/-- The number of source symbols of a message, with chunks of at least the least length. -/
theorem numBaseSymbols_bounds {symbolLen : ℕ} (hpos : 0 < len) (hmax : len ≤ MAX_MESSAGE_SIZE)
    (hsymbol : MIN_CHUNK_LENGTH ≤ symbolLen) :
    1 ≤ (len + (symbolLen - 1)) / symbolLen ∧ (len + (symbolLen - 1)) / symbolLen ≤ 3277 := by
  unfold MAX_MESSAGE_SIZE at hmax
  unfold MIN_CHUNK_LENGTH at hsymbol
  refine ⟨Nat.div_pos (by omega) (by omega), ?_⟩
  rw [← Nat.lt_succ_iff]
  exact Nat.div_lt_of_lt_mul (by omega)

theorem exists_scale_max (h : base ≤ 3277) : ∃ scaled, MAX_REDUNDANCY.scale base = some scaled := by
  have hbits : MAX_REDUNDANCY.bits = 6144 := rfl
  unfold Redundancy.scale Redundancy.MAX_MULTIPLIER
  rw [hbits, if_neg (by omega), if_neg (by omega)]
  exact ⟨_, rfl⟩

end Layout

/-- A point-to-point packet names its group by the epoch. -/
def BuildTarget.NamesEpoch : BuildTarget → Prop
  | .pointToPoint (.secondary _) _ => False
  | _ => True

/-- The size of the validator group of a target. -/
def BuildTarget.numValidators : BuildTarget → ℕ
  | .broadcast group | .raptorcast group => group.group.validators.length
  | .pointToPoint _ _ | .fullNodeRaptorCast _ => 0

theorem groupId_headerOf {depth unixTsMs appMessageLen : ℕ} {appMessageHash : MerkleHash}
    (hnames : target.NamesEpoch) (hmax : depth ≤ MAX_MERKLE_TREE_DEPTH)
    (h : target.groupId.toU64 < 2 ^ 64) :
    RaptorcastHeaderV0.groupId (headerOf target.broadcastMode depth target.groupId unixTsMs
      appMessageHash appMessageLen) = .ok target.groupId := by
  unfold RaptorcastHeaderV0.groupId
  rw [broadcastMode_headerOf hmax, rawGroupId_headerOf h]
  rcases target with group | group | ⟨groupId | round, recipient⟩ | group
  · rfl
  · rfl
  · rfl
  · exact hnames.elim
  · rfl

/-- The rounding chunks of a target are within what a receiver allows for. -/
theorem lt_chunkIdCap {id : ℕ} (hgroup : target.numValidators ≤ MAX_VALIDATOR_SET_SIZE)
    (hred : redundancy.bits ≤ MAX_REDUNDANCY.bits) (hn : redundancy.scale base = some n)
    (hscaled : MAX_REDUNDANCY.scale base = some scaled) (hid : id < n + target.roundingChunks) :
    id < chunkIdCap target.broadcastMode scaled := by
  have hle := Redundancy.scale_le hred hn hscaled
  cases target with
  | raptorcast group =>
    change id < n + (group.group.validators.length - 1) at hid
    change group.group.validators.length ≤ _ at hgroup
    change id < scaled + MAX_VALIDATOR_SET_SIZE
    omega
  | broadcast group => exact Nat.lt_of_lt_of_le hid hle
  | pointToPoint groupId recipient => exact Nat.lt_of_lt_of_le hid hle
  | fullNodeRaptorCast group => exact Nat.lt_of_lt_of_le hid hle

/-- The chunk a receiver gets is the one that was built. -/
structure ValidatedChunk.Carries (v : ValidatedChunk) (env : BuildEnv) (builder : MessageBuilder)
    (appMessage : Bytes) (target : BuildTarget) (chunkId : ℕ) (recipient : NodeId) : Prop where
  author_eq : v.author = builder.key
  groupId_eq : v.groupId = target.groupId
  broadcastMode_eq : v.broadcastMode = target.broadcastMode
  unixTsMs_eq : v.unixTsMs = builder.unixTsMs
  appMessageHash_eq : v.appMessageHash = env.computeAppMessageHash appMessage
  appMessageLen_eq : v.appMessageLen = appMessage.length
  chunkId_eq : v.chunkId = chunkId
  recipientHash_eq : v.recipientHash = env.computeHash recipient
  symbol_eq : v.chunk = (env.encodeSymbol appMessage
    (PacketLayout.new builder.segmentSize builder.merkleTreeDepth).symbolLen chunkId).toList

/-- The message goes to the recipient of the chunk, is parsed, has the root that is signed,
and is accepted with what was built by every receiver that verifies it. -/
structure Delivered (env : BuildEnv) (builder : MessageBuilder) (appMessage : Bytes)
    (target : BuildTarget) (chunkId : ℕ) (recipient : NodeId) (message : UdpMessage) :
    Prop where
  recipient_eq : message.recipient = recipient
  accepted : ∃ packet root, RaptorcastPacket.parse message.payload = .ok packet ∧
    packet.v0.computeMerkleRoot env.hash = .ok root ∧
    signatureOf (signedOverData packet.commonHeader packet.v0.header root) =
      (env.scheme.serialize (env.scheme.sign builder.key (signedMessage
        (signedOverData packet.commonHeader packet.v0.header root)))).toList ∧
    ∀ receiver : ChunkValidationEnv env.scheme, receiver.selfId ≠ builder.key →
      ensureValidTimestamp receiver.currentTsMs builder.unixTsMs receiver.maxAgeMs = .ok () →
      receiver.Admits target.groupId →
      ∃ v, (packet.validateChunk env.hash message.payload receiver).1 = .ok v ∧
        v.Carries env builder appMessage target chunkId recipient

section Packet

variable {signature : ByteArrayN 65} {header : RaptorcastHeaderV0} {proof : List MerkleHash}
  {chunkHeader : RaptorcastChunkHeaderV0} {symbol : Bytes} {root : MerkleHash}

/-- What is left of a packet after the offset of its payload. -/
theorem splitChunk_builtPacket (hproof : proof.length = treeDepth header - 1) :
    (builtPacket signature header proof chunkHeader symbol).v0.splitChunk
      (packetBytes signature (leBytes 2 VERSION ++ header.toList) proof chunkHeader symbol) =
      .ok symbol := by
  have hlen : (signature.toList ++ (leBytes 2 VERSION ++ header.toList) ++
      proof.flatMap List.Vector.toList ++ chunkHeader.toList).length =
      67 + 41 + merkleProofSize header + 24 := by
    simp only [length_append, List.Vector.toList_length, length_leBytes,
      length_flatMap_toList, hproof, merkleProofSize, MERKLE_HASH_SIZE]
    omega
  have hle : ¬ (packetBytes signature (leBytes 2 VERSION ++ header.toList) proof chunkHeader
      symbol).length < 67 + 41 + merkleProofSize header + 24 := by
    rw [packetBytes, length_append]
    omega
  exact (if_neg hle).trans (congrArg Except.ok (drop_left' hlen))

theorem signedOverData_builtPacket :
    signedOverData (builtPacket signature header proof chunkHeader symbol).commonHeader header
      root = signature.toList ++ (leBytes 2 VERSION ++ header.toList ++ root.toList) := by
  simp [signedOverData, builtPacket]

theorem signatureOf_builtPacket :
    signatureOf (signedOverData
      (builtPacket signature header proof chunkHeader symbol).commonHeader header root) =
      signature.toList := by
  rw [signedOverData_builtPacket]
  exact take_left' signature.toList_length

theorem signedMessage_builtPacket :
    signedMessage (signedOverData
      (builtPacket signature header proof chunkHeader symbol).commonHeader header root) =
      leBytes 2 VERSION ++ header.toList ++ root.toList := by
  rw [signedOverData_builtPacket]
  exact drop_left' signature.toList_length

end Packet

/-- A packet whose header passes is accepted, if its author is another node. -/
theorem validateChunk_of_meta {packet : RaptorcastPacket} {message : Bytes}
    {receiver : ChunkValidationEnv env.scheme}
    (hmeta : packet.validateChunkMeta env.hash receiver = .ok chunkMeta)
    (hauthor : env.scheme.authorOf chunkMeta.signedOverData = some author)
    (hadmits : receiver.Admits chunkMeta.groupId) (hself : receiver.selfId ≠ author)
    (hsplit : packet.v0.splitChunk message = .ok symbol) :
    (packet.validateChunk env.hash message receiver).1 =
      .ok { chunk := symbol, message, author, groupId := chunkMeta.groupId
            unixTsMs := chunkMeta.timestamp, appMessageHash := chunkMeta.appMessageHash
            appMessageLen := chunkMeta.appMessageLen, broadcastMode := chunkMeta.broadcastMode
            recipientHash := chunkMeta.recipientHash, chunkId := chunkMeta.chunkId
            numSourceSymbols := chunkMeta.numSourceSymbols
            encodedSymbolCapacity := chunkMeta.encodedSymbolCapacity } := by
  obtain ⟨verifier, hverify⟩ := verifySignature_ok hauthor hadmits
  unfold RaptorcastPacket.validateChunk
  rw [hmeta]
  dsimp only
  rw [hverify]
  unfold RaptorcastPacket.finishChunk
  dsimp only
  rw [hsplit, ensure_eq_ok.mpr hself.symm]
  rfl

/-- What a message, its target and the settings of the builder have to be like. -/
structure Sendable (env : BuildEnv) (builder : MessageBuilder) (appMessage : Bytes)
    (target : BuildTarget) : Prop where
  scheme_correct : env.scheme.Correct builder.key
  ne_nil : appMessage ≠ []
  /-- There is room for a chunk of the least length. -/
  segment_le : calcSegmentLen MIN_CHUNK_LENGTH builder.merkleTreeDepth ≤
    builder.segmentSize
  group_le : target.numValidators ≤ MAX_VALIDATOR_SET_SIZE
  namesEpoch : target.NamesEpoch
  groupId_lt : target.groupId.toU64 < 2 ^ 64
  unixTsMs_lt : builder.unixTsMs < 2 ^ 64

section Delivery

variable {builder : MessageBuilder} {appMessage : Bytes} {target : BuildTarget}

variable (env builder appMessage target) in
/-- The header of the packets of a message. -/
def messageHeader : RaptorcastHeaderV0 :=
  headerOf target.broadcastMode builder.merkleTreeDepth target.groupId builder.unixTsMs
    (env.computeAppMessageHash appMessage) appMessage.length

variable (builder) in
def messageLayout : PacketLayout := PacketLayout.new builder.segmentSize builder.merkleTreeDepth

/-- What the checks at the start of a build establish. -/
structure Checked (builder : MessageBuilder) (redundancy : Redundancy) (appMessage : Bytes) :
    Prop where
  min_depth : MIN_MERKLE_TREE_DEPTH ≤ builder.merkleTreeDepth
  max_depth : builder.merkleTreeDepth ≤ MAX_MERKLE_TREE_DEPTH
  redundancy_le : redundancy.bits ≤ MAX_REDUNDANCY.bits
  length_le : appMessage.length ≤ MAX_MESSAGE_SIZE

theorem MessageBuilder.unwrapMerkleTreeDepth_ok {depth : ℕ}
    (h : builder.unwrapMerkleTreeDepth = .ok depth) :
    builder.merkleTreeDepth = depth ∧ MIN_MERKLE_TREE_DEPTH ≤ builder.merkleTreeDepth ∧
      builder.merkleTreeDepth ≤ MAX_MERKLE_TREE_DEPTH := by
  unfold MessageBuilder.unwrapMerkleTreeDepth at h
  split_ifs at h with hmin hmax
  exact ⟨Except.ok.inj h, Nat.not_lt.mp hmin, Nat.not_lt.mp hmax⟩

theorem MessageBuilder.unwrapRedundancy_ok (h : builder.unwrapRedundancy = .ok redundancy) :
    builder.redundancy = some redundancy ∧ redundancy.bits ≤ MAX_REDUNDANCY.bits := by
  unfold MessageBuilder.unwrapRedundancy at h
  split at h
  · cases h
  next r hr =>
    split_ifs at h with hlt
    cases h
    exact ⟨hr, Nat.not_lt.mp hlt⟩

section

variable (hs : Sendable env builder appMessage target)
  (hc : Checked builder redundancy appMessage)

include hs hc

/-- A packet of a batch is delivered. -/
theorem delivered_of_leaf {chunk : Chunk}
    (hn : redundancy.scale ((messageLayout builder).numBaseSymbols appMessage.length) = some n)
    (hid : chunk.chunkId < n + target.roundingChunks) (hid' : chunk.chunkId < 2 ^ 16)
    (hbuilt : MerkleTree.Built env.hash leaves builder.merkleTreeDepth tree)
    (hi : i < 2 ^ (builder.merkleTreeDepth - 1))
    (hleaf : leaves[i]? = some (env.hash (leafOf env (fun c => (env.encodeSymbol appMessage
      (messageLayout builder).symbolLen c.chunkId).toList) chunk i))) :
    Delivered env builder appMessage target chunk.chunkId chunk.recipient
      (Chunk.mk chunk.chunkId chunk.recipient (packetBytes
        (env.scheme.serialize (env.scheme.sign builder.key ((leBytes 2 VERSION ++
          (messageHeader env builder appMessage target).toList) ++ tree.root.toList)))
        (leBytes 2 VERSION ++ (messageHeader env builder appMessage target).toList)
        (tree.proof i).siblings (chunkHeaderOf env chunk (UInt8.ofNat i))
        (env.encodeSymbol appMessage (messageLayout builder).symbolLen
          chunk.chunkId).toList)).toUdpMessage := by
  set header := messageHeader env builder appMessage target with hheader
  set symbol := env.encodeSymbol appMessage (messageLayout builder).symbolLen chunk.chunkId
    with hsymbol
  set signature := env.scheme.serialize (env.scheme.sign builder.key ((leBytes 2 VERSION ++
    header.toList) ++ tree.root.toList)) with hsignature
  have hroomy : Roomy (messageLayout builder) builder.merkleTreeDepth :=
    roomy_new hc.min_depth hs.segment_le
  have hpos : 0 < appMessage.length := length_pos_iff.mpr hs.ne_nil
  have hsymLen : symbol.toList.length = (messageLayout builder).symbolLen := symbol.toList_length
  have hdepth : treeDepth header = builder.merkleTreeDepth :=
    treeDepth_headerOf hc.min_depth hc.max_depth
  have hproof : (tree.proof i).siblings.length = treeDepth header - 1 := by
    rw [hbuilt.length_siblings hi, hdepth]
  let packet := builtPacket signature header (tree.proof i).siblings
    (chunkHeaderOf env chunk (UInt8.ofNat i)) symbol.toList
  have hroot : packet.v0.computeMerkleRoot env.hash = .ok tree.root :=
    computeMerkleRoot_builtPacket hbuilt hc.min_depth hc.max_depth hi hleaf
  refine ⟨rfl, packet, tree.root, ?_, hroot, ?_, fun receiver hself hvalid hadmits => ?_⟩
  · have hsymNe : symbol.toList ≠ [] := by
      have hle := hroomy.symbol_le
      unfold MIN_CHUNK_LENGTH at hle
      exact length_pos_iff.mp (by omega)
    exact parse_packetBytes (hdepth ▸ hc.min_depth) (hdepth ▸ hc.max_depth) hproof hsymNe
  · change signatureOf (signedOverData _ header tree.root) = (env.scheme.serialize
      (env.scheme.sign builder.key (signedMessage (signedOverData _ header tree.root)))).toList
    rw [signatureOf_builtPacket, signedMessage_builtPacket]
  · have hmsgLen : RaptorcastHeaderV0.appMessageLen header = appMessage.length := by
      have hle := hc.length_le
      unfold MAX_MESSAGE_SIZE at hle
      exact appMessageLen_headerOf (by omega)
    have htime : RaptorcastHeaderV0.unixTsMs header = builder.unixTsMs :=
      unixTsMs_headerOf hs.unixTsMs_lt
    have hchunkId : chunkId (chunkHeaderOf env chunk (UInt8.ofNat i)) =
      chunk.chunkId := chunkId_chunkHeaderOf hid'
    obtain ⟨hK, hK'⟩ := numBaseSymbols_bounds hpos hc.length_le hroomy.symbol_le
    obtain ⟨scaled, hscaled⟩ := exists_scale_max hK'
    have hcap := lt_chunkIdCap hs.group_le hc.redundancy_le hn hscaled hid
    have hmeta := validateChunkMeta_builtPacket hmsgLen (by rw [hsymLen]) ⟨hpos, hc.length_le⟩
      (htime ▸ hvalid) hroot (by rw [hsymLen]; exact hroomy.symbol_le)
      ⟨hK, hK'.trans (by decide)⟩ hscaled (broadcastMode_headerOf hc.max_depth)
      (by rw [hchunkId]; exact hcap) (groupId_headerOf hs.namesEpoch hc.max_depth hs.groupId_lt)
    have hauthor : env.scheme.authorOf (signedOverData packet.commonHeader header tree.root) =
        some builder.key := by
      unfold SignatureScheme.authorOf
      rw [signatureOf_builtPacket, signedMessage_builtPacket,
        hs.scheme_correct.deserialize_serialize]
      exact hs.scheme_correct.recoverPubkey_sign _
    refine ⟨_, validateChunk_of_meta hmeta hauthor hadmits hself
      (splitChunk_builtPacket hproof), ?_⟩
    exact ⟨rfl, rfl, rfl, htime, appMessageHash_headerOf, rfl, hchunkId,
      recipientHash_chunkHeaderOf, rfl⟩

/-- The packets of a batch are delivered. -/
theorem delivered_of_batch {batch out : List Chunk}
    (hpay : ∀ c ∈ batch, c.payload = List.replicate (messageLayout builder).symbolStart 0 ++
      (env.encodeSymbol appMessage (messageLayout builder).symbolLen c.chunkId).toList)
    (hids : ∀ c ∈ batch, ∃ n,
      redundancy.scale ((messageLayout builder).numBaseSymbols appMessage.length) = some n ∧
        c.chunkId < n + target.roundingChunks)
    (hbatch : batch.length ≤ 2 ^ (builder.merkleTreeDepth - 1))
    (h : writeBatchHeader env (messageLayout builder) builder.key (leBytes 2 VERSION ++
      (messageHeader env builder appMessage target).toList) batch = .ok out) :
    List.Forall₂ (fun c o => Delivered env builder appMessage target c.chunkId c.recipient
      o.toUdpMessage) batch out := by
  have hroomy : Roomy (messageLayout builder) builder.merkleTreeDepth :=
    roomy_new hc.min_depth hs.segment_le
  obtain ⟨tree, hbuilt, houtLen, hout⟩ := writeBatchHeader_ok hroomy.start_eq hroomy.depth_eq
    (by simp) hpay (fun c _ => by
      rw [List.Vector.toList_length, symbolLen, Nat.add_sub_cancel' hroomy.start_le]) hbatch h
  refine forall₂_iff_get.mpr ⟨houtLen, fun i hi hi' => ?_⟩
  have hget : batch[i]? = some (batch.get ⟨i, hi⟩) := List.getElem?_eq_getElem hi
  obtain ⟨hid, hpacket⟩ := hout i _ hget
  obtain ⟨n, hn, hlt⟩ := hids _ (get_mem batch ⟨i, hi⟩)
  have hout' : out.get ⟨i, hi'⟩ = _ := (List.getElem?_eq_some_iff.mp hpacket).2
  rw [hout']
  refine delivered_of_leaf hs hc hn hlt hid hbuilt (Nat.lt_of_lt_of_le hi hbatch) ?_
  rw [List.getElem?_map, List.getElem?_zipIdx, hget, Option.map_some, Option.map_some, Nat.zero_add]

/-- The packets of all batches are delivered. -/
theorem delivered_of_batches {chunks : List Chunk} {batches : List (List Chunk)}
    (hgen : ∀ c ∈ chunks, c.payload = List.replicate (messageLayout builder).segmentLen 0 ∧
      ∃ n, redundancy.scale ((messageLayout builder).numBaseSymbols appMessage.length) = some n ∧
        c.chunkId < n + target.roundingChunks)
    (h : (merkleBatches (messageLayout builder).merkleBatchLen
      (chunks.map (withSymbol env appMessage (messageLayout builder)))).mapM
      (writeBatchHeader env (messageLayout builder) builder.key (leBytes 2 VERSION ++
        (messageHeader env builder appMessage target).toList)) = .ok batches) :
    List.Forall₂ (fun c o => Delivered env builder appMessage target c.chunkId c.recipient
      o.toUdpMessage) chunks batches.flatten := by
  have hroomy : Roomy (messageLayout builder) builder.merkleTreeDepth :=
    roomy_new hc.min_depth hs.segment_le
  have hbatchLen : (messageLayout builder).merkleBatchLen = 2 ^ (builder.merkleTreeDepth - 1) := by
    rw [merkleBatchLen, hroomy.depth_eq]
  rw [hbatchLen] at h
  set withSymbols := chunks.map (withSymbol env appMessage (messageLayout builder))
    with hwithSymbols
  have hflat := flatten_merkleBatches (Nat.two_pow_pos (builder.merkleTreeDepth - 1)).ne'
    withSymbols
  have hbatches := (forall₂_and_left _ _).mpr
    ⟨fun batch (hbatch : batch ∈ merkleBatches _ withSymbols) => hbatch, forall₂_of_mapM_eq_ok h⟩
  have hdelivered : List.Forall₂ (List.Forall₂ fun c o =>
      Delivered env builder appMessage target c.chunkId c.recipient o.toUdpMessage)
      (merkleBatches (2 ^ (builder.merkleTreeDepth - 1)) withSymbols) batches := by
    refine hbatches.imp fun batch out hb => ?_
    have hfrom : ∀ c ∈ batch, ∃ c₀ ∈ chunks,
        withSymbol env appMessage (messageLayout builder) c₀ = c := by
      intro c hmem
      have : c ∈ withSymbols := hflat ▸ mem_flatten.mpr ⟨batch, hb.1, hmem⟩
      exact mem_map.mp this
    refine delivered_of_batch hs hc (fun c hmem => ?_) (fun c hmem => ?_)
      (length_le_of_mem_merkleBatches hb.1) hb.2
    · obtain ⟨c₀, hmem₀, rfl⟩ := hfrom c hmem
      exact payload_withSymbol hroomy.start_le (hgen c₀ hmem₀).1
    · obtain ⟨c₀, hmem₀, rfl⟩ := hfrom c hmem
      exact (hgen c₀ hmem₀).2
  have hall := rel_flatten hdelivered
  rw [hflat, forall₂_map_left_iff] at hall
  exact hall

end

/-- Every packet a node builds is accepted, with what was built, by every receiver that
verifies it. -/
theorem delivered_of_buildInto (hs : Sendable env builder appMessage target)
    {messages : List UdpMessage} (h : builder.buildInto env appMessage target = .ok messages) :
    ∃ redundancy chunks, builder.redundancy = some redundancy ∧
      generateChunks env target builder.key (env.computeAppMessageHash appMessage)
        ((messageLayout builder).numBaseSymbols appMessage.length) redundancy
        (messageLayout builder) = .ok chunks ∧
      List.Forall₂ (fun chunk message => Delivered env builder appMessage target chunk.chunkId
        chunk.recipient message) chunks messages := by
  obtain ⟨depth, hdepth, h⟩ := bind_eq_ok.mp h
  obtain ⟨redundancy, hred, h⟩ := bind_eq_ok.mp h
  obtain ⟨_, hlen, h⟩ := bind_eq_ok.mp h
  obtain ⟨rfl, hmin, hmax⟩ := builder.unwrapMerkleTreeDepth_ok hdepth
  obtain ⟨hsome, hle⟩ := builder.unwrapRedundancy_ok hred
  have hc : Checked builder redundancy appMessage := ⟨hmin, hmax, hle, ensure_eq_ok.mp hlen⟩
  have hroomy : Roomy (messageLayout builder) builder.merkleTreeDepth :=
    roomy_new hmin hs.segment_le
  obtain ⟨chunks, hchunks, h⟩ := bind_eq_ok.mp h
  refine ⟨redundancy, chunks, hsome, hchunks, ?_⟩
  split at h
  next hnil =>
    cases h
    rw [hnil]
    exact .nil
  obtain ⟨header, hheader, h⟩ := bind_eq_ok.mp h
  obtain ⟨chunks', hchunks', h⟩ := bind_eq_ok.mp h
  obtain ⟨batches, hbatches, h⟩ := bind_eq_ok.mp h
  cases h
  have hgen := generateChunks_ok hchunks
  obtain ⟨-, rfl⟩ := encodeSymbols_eq hroomy.start_le (fun c hc => (hgen c hc).1) hchunks'
  have hheader' : header = leBytes 2 VERSION ++
      (messageHeader env builder appMessage target).toList := by
    have hdepth_eq : (messageLayout builder).merkleTreeDepth = builder.merkleTreeDepth :=
      hroomy.depth_eq
    rw [messageHeader, ← hdepth_eq]
    exact buildHeader_ok hheader
  rw [hheader'] at hbatches
  rw [forall₂_map_right_iff]
  exact delivered_of_batches hs hc hgen hbatches

end Delivery

/-! ## A message of one chunk -/

/-- Node 7 signs everything, and every symbol is zero. -/
def quietEnv : BuildEnv where
  hash := zeroHash
  scheme := nodeSeven
  pubkeyBytes _ := []
  encodeSymbol _ symbolLen _ := List.Vector.replicate symbolLen 0
  shuffle _ _ l := l
  length_shuffle _ _ _ := rfl
  obligation stake totalStake numScaledSymbols :=
    (stake * numScaledSymbols + (totalStake - 1)) / totalStake
  randomSeed := List.Vector.replicate 32 0

/-- One leaf in a tree, chunks of the least length, and no redundancy. -/
def oneLeaf : MessageBuilder where
  key := 7
  redundancy := some (.fromU8 1 (by decide))
  unixTsMs := 0
  segmentSize := calcSegmentLen MIN_CHUNK_LENGTH 1
  merkleTreeDepth := 1

/-- The packets of the byte 5 for node 1 in a group. -/
def oneLeafMessages (groupId : GroupId) : List UdpMessage :=
  ((oneLeaf.buildInto quietEnv [5] (.pointToPoint groupId 1)).toOption).getD []

/-- A message for node 1 is delivered. -/
theorem delivered_of_buildInto_oneLeaf :
    oneLeafMessages (.primary 3) ≠ [] ∧ ∃ chunks : List Chunk, List.Forall₂ (fun chunk message =>
      Delivered quietEnv oneLeaf [5] (.pointToPoint (.primary 3) 1) chunk.chunkId
        chunk.recipient message) chunks (oneLeafMessages (.primary 3)) := by
  have hs : Sendable quietEnv oneLeaf [5] (.pointToPoint (.primary 3) 1) :=
    ⟨⟨fun _ => rfl, fun _ => rfl⟩, by decide, by decide, by decide, trivial, by decide, by decide⟩
  obtain ⟨_, chunks, -, -, hall⟩ := delivered_of_buildInto hs
    (show oneLeaf.buildInto quietEnv [5] (.pointToPoint (.primary 3) 1) =
      .ok (oneLeafMessages (.primary 3)) by decide +kernel)
  exact ⟨by decide +kernel, chunks, hall⟩

/-- What node 1 makes of the packets, with its rate limiter open or not. -/
def oneLeafOutcomes (groupId : GroupId) (checkRateLimit : Bool) :
    List (Except InvalidChunk ValidatedChunk) :=
  (oneLeafMessages groupId).filterMap fun message =>
    ((RaptorcastPacket.parse message.payload).toOption).map fun packet =>
      (packet.validateChunk quietEnv.hash message.payload
        ({ receiver with checkRateLimit } : ChunkValidationEnv quietEnv.scheme)).1

/-- A packet is refused while its receiver verifies no more signatures, and one for round 3 of
a group of full nodes arrives as one of epoch 3. -/
theorem not_delivered_oneLeaf :
    oneLeafOutcomes (.primary 3) false = [.error .rateLimited] ∧
      (oneLeafOutcomes (.secondary 3) true).map (fun r => r.toOption.map (·.groupId)) =
        [some (.primary 3)] := by
  decide +kernel

end MonadBft.Raptorcast
