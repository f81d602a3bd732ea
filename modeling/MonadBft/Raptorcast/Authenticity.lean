import MonadBft.Raptorcast.Packet

/-!
# Accepted chunks are the author's

The signature of a packet covers its header and the Merkle root, not the chunk. The header
names the depth of the tree, so the signed data fixes the length of the proof, and the root
fixes the chunk at each leaf index unless the truncated hash has a collision.

The collisions of `authentic_of_signedOverData` are computed from the packets and the batch
(`RaptorcastPacket.collision`, `RaptorcastPacket.batchCollision`).
-/

namespace MonadBft.Raptorcast

open RaptorcastPacket

variable (hash : Bytes → Hash)

/-- The packet is parsed from `data` and its chunk is accepted. -/
def Accepted {scheme : SignatureScheme} (env : ChunkValidationEnv scheme) (data : Bytes)
    (packet : RaptorcastPacket) : Prop :=
  parse data = .ok packet ∧ ∃ chunk, (packet.validateChunk hash data env).1 = .ok chunk

namespace RaptorcastPacket

def leafIdx (packet : RaptorcastPacket) : ℕ :=
  (RaptorcastChunkHeaderV0.merkleLeafIdx packet.v0.chunkHeader).toNat

def treeDepth (packet : RaptorcastPacket) : ℕ := RaptorcastHeaderV0.treeDepth packet.v0.header

/-- The header and the root that the chunk and its proof give. -/
def signedData (packet : RaptorcastPacket) : Except InvalidChunk Bytes := do
  let merkleRoot ← packet.v0.computeMerkleRoot hash
  .ok (signedOverData packet.commonHeader packet.v0.header merkleRoot)

/-- The collision of two packets with one root. -/
def collision (p q : RaptorcastPacket) : Option (Bytes × Bytes) := do
  let proof ← p.v0.chunkProof
  proof.collision hash q.v0.merkleProof p.v0.chunkHeaderAndPayload q.v0.chunkHeaderAndPayload

/-- The collision of a packet with the tree over a batch of chunks. -/
def batchCollision (p : RaptorcastPacket) (batch : List Bytes) : Option (Bytes × Bytes) := do
  let proof ← p.v0.chunkProof
  let tree := MerkleTree.newWithDepth hash (batch.map hash) p.treeDepth
  tree.collision hash batch p.leafIdx proof p.v0.chunkHeaderAndPayload

end RaptorcastPacket

variable {hash} {r' r : MerkleHash}

/-- What an accepted packet has to offer: a proof with a sibling for each level, which
leads from the chunk to a root. -/
theorem Accepted.exists_proof {scheme : SignatureScheme} {env : ChunkValidationEnv scheme}
    {data : Bytes} {packet : RaptorcastPacket} (h : Accepted hash env data packet) :
    ∃ proof root, packet.v0.chunkProof = some proof ∧ packet.v0.computeMerkleRoot hash = .ok root ∧
      proof.computeRoot hash (hash packet.v0.chunkHeaderAndPayload) = some root ∧
      proof.siblings = packet.v0.merkleProof ∧
      packet.v0.merkleProof.length = packet.treeDepth - 1 ∧
      packet.leafIdx < 2 ^ (packet.treeDepth - 1) ∧
      proof.treeLeafIdx = 2 ^ (packet.treeDepth - 1) - 1 + packet.leafIdx := by
  obtain ⟨hparse, chunk, hchunk⟩ := h
  obtain ⟨-, -, hlen, -⟩ := RaptorcastPacketV0.parse_ok (parse_ok hparse)
  obtain ⟨root, hroot⟩ := validateChunk_ok hchunk
  obtain ⟨proof, hproof, hcompute⟩ := RaptorcastPacketV0.computeMerkleRoot_ok hroot
  obtain ⟨-, hidx, rfl⟩ := MerkleProof.newFromLeafIdx_eq_some.mp hproof
  rw [hlen] at hidx
  exact ⟨_, root, hproof, hroot, hcompute, rfl, hlen, hidx, by rw [hlen]; rfl⟩

theorem signedOverData_inj {c c' : RaptorcastHeader} {h h' : RaptorcastHeaderV0}
    (heq : signedOverData c h r = signedOverData c' h' r') :
    h = h' ∧ r = r' := by
  obtain ⟨hch, hr⟩ := List.append_inj heq (by simp)
  obtain ⟨-, hh⟩ := List.append_inj hch (by simp)
  exact ⟨Subtype.ext hh, Subtype.ext hr⟩

/-- Packets that are signed alike have headers and roots in common. -/
theorem signedData_inj {p q : RaptorcastPacket} (heq : p.signedData hash = q.signedData hash)
    (hr : p.v0.computeMerkleRoot hash = .ok r) (hr' : q.v0.computeMerkleRoot hash = .ok r') :
    p.v0.header = q.v0.header ∧ r = r' := by
  unfold signedData at heq
  rw [hr, hr'] at heq
  exact signedOverData_inj (Except.ok.inj heq)

/-- Accepted packets that are signed alike carry the same chunk at the same leaf index, or
give a collision; and an accepted packet carries the chunk at its leaf index of the batch
its root was built from, or gives a collision or a chunk that hashes to the padding. -/
theorem authentic_of_signedOverData (hash : Bytes → Hash) {scheme : SignatureScheme}
    {env env' : ChunkValidationEnv scheme} {data data' : Bytes} {p q : RaptorcastPacket}
    (hp : Accepted hash env data p) (hq : Accepted hash env' data' q)
    (hsigned : p.signedData hash = q.signedData hash) :
    (p.leafIdx = q.leafIdx →
      p.v0.chunkHeaderAndPayload = q.v0.chunkHeaderAndPayload ∨
        ∃ c, p.collision hash q = some c ∧ HashCollision hash c.1 c.2) ∧
      ∀ batch : List Bytes,
        p.v0.computeMerkleRoot hash =
          .ok (MerkleTree.newWithDepth hash (batch.map hash) p.treeDepth).root →
        batch[p.leafIdx]? = some p.v0.chunkHeaderAndPayload ∨
          (∃ c, p.batchCollision hash batch = some c ∧ HashCollision hash c.1 c.2) ∨
          (batch[p.leafIdx]? = none ∧
            merkleHash hash p.v0.chunkHeaderAndPayload = MerkleHash.default) := by
  obtain ⟨proof, root, hproof, hroot, hclimb, hsib, hlen, hidx, hstart⟩ := hp.exists_proof
  constructor
  · intro hleaf
    obtain ⟨proof', root', hproof', hroot', hclimb', hsib', hlen', -, hstart'⟩ := hq.exists_proof
    obtain ⟨hheader, rfl⟩ := signedData_inj hsigned hroot hroot'
    -- one header, so one depth : the proofs are equally long and start at one index
    have hdepth : p.treeDepth = q.treeDepth := congrArg RaptorcastHeaderV0.treeDepth hheader
    unfold collision
    rw [hproof, ← hsib']
    refine MerkleProof.eq_or_collision ?_ ?_ hclimb hclimb'
    · rw [hstart, hstart', hdepth, hleaf]
    · rw [hsib, hsib', hlen, hlen', hdepth]
  · intro batch hbatch
    have hbuilt := MerkleTree.built_newWithDepth hash (batch.map hash) p.treeDepth
    rw [hroot] at hbatch
    rw [Except.ok.inj hbatch] at hclimb
    unfold batchCollision
    rw [hproof]
    refine hbuilt.eq_or_collision hidx ?_ (by rw [hsib, hlen]) hclimb
    rw [hstart, hbuilt.start_eq]

/-- A hash that tells nothing apart. -/
def zeroHash : Bytes → Hash := fun _ => List.Vector.replicate 32 0

/-- Every signature is by node 7. -/
def nodeSeven : SignatureScheme where
  Signature := Unit
  serialize _ := List.Vector.replicate 65 0
  deserialize _ := some ()
  sign _ _ := ()
  recoverPubkey _ _ := some 7

/-- A receiver that is node 1. -/
def receiver : ChunkValidationEnv nodeSeven where
  signatureVerifier := .new nodeSeven
  bypassRateLimiter _ := false
  checkRateLimit := true
  currentTsMs := some 0
  maxAgeMs := 100
  selfId := 1

/-- A packet of one chunk, the byte `b`, which is the whole message. -/
def oneByte (b : UInt8) : Bytes :=
  List.replicate 67 0 ++ (1 :: List.replicate 36 0 ++ [1, 0, 0, 0]) ++ List.replicate 24 0 ++ [b]

/-- The packet parsed from `oneByte b`. -/
def oneBytePacket (b : UInt8) : RaptorcastPacket :=
  ((parse (oneByte b)).toOption).getD
    ⟨List.Vector.replicate 67 0, ⟨List.Vector.replicate 41 0, [], List.Vector.replicate 24 0, [], 0⟩⟩

/-- Two packets that are signed alike and carry different bytes give a collision. -/
theorem authentic_of_signedOverData_zeroHash :
    (oneBytePacket 5).v0.chunkHeaderAndPayload ≠ (oneBytePacket 6).v0.chunkHeaderAndPayload ∧
      ∃ c, (oneBytePacket 5).collision zeroHash (oneBytePacket 6) = some c ∧
        HashCollision zeroHash c.1 c.2 := by
  have hne : (oneBytePacket 5).v0.chunkHeaderAndPayload ≠
      (oneBytePacket 6).v0.chunkHeaderAndPayload := by decide +kernel
  have hfive : Accepted zeroHash receiver (oneByte 5) (oneBytePacket 5) :=
    ⟨by decide +kernel, _, eq_ok_get (by decide +kernel)⟩
  have hsix : Accepted zeroHash receiver (oneByte 6) (oneBytePacket 6) :=
    ⟨by decide +kernel, _, eq_ok_get (by decide +kernel)⟩
  have h := (authentic_of_signedOverData zeroHash hfive hsix (by decide +kernel)).1
    (by decide +kernel)
  exact ⟨hne, h.resolve_left hne⟩

end MonadBft.Raptorcast
