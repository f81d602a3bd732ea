import MonadBft.Raptorcast.Builder

/-!
# The bytes of built packets

A chunk on its way through `MessageBuilder.buildInto`: `generateChunks_ok` bounds its id,
`encodeSymbols_eq` gives its symbol, whether coded for it or copied from an earlier chunk, and
`writeBatchHeader_ok` the bytes of its packet (`packetBytes`), with the tree of its batch.
-/

namespace MonadBft.Raptorcast

open List PacketLayout ChunkAssignment StakePartition

variable {env : BuildEnv} {chunks : List Chunk} {chunk : Chunk} {assignment : ChunkAssignment}
  {numBaseSymbols : ℕ} {redundancy : Redundancy} {batch : List Chunk} {n : ℕ}

/-! ## Chunks and their ids -/

/-- What `materialize` makes: a zeroed buffer for each chunk, with an id below their
number. -/
theorem ChunkAssignment.materialize_ok {segmentLen : ℕ} {nodes : List NodeId}
    (h : assignment.materialize segmentLen nodes = .ok chunks) :
    ∀ c ∈ chunks, c.payload = replicate segmentLen 0 ∧ c.chunkId < assignment.targets.length := by
  obtain ⟨_, -, h⟩ := bind_eq_ok.mp h
  split at h
  · cases h
    simp
  obtain ⟨_, -, h⟩ := bind_eq_ok.mp h
  cases h
  intro c hc
  obtain ⟨⟨target, chunkId⟩, hmem, hc⟩ := mem_filterMap.mp hc
  obtain ⟨recipient, -, rfl⟩ := Option.map_eq_some_iff.mp hc
  exact ⟨rfl, snd_lt_of_mem_zipIdx hmem⟩

theorem Redundancy.scaleChunks_ok {r : Redundancy} {base : ℕ} (h : r.scaleChunks base = .ok n) :
    r.scale base = some n := by
  unfold Redundancy.scaleChunks at h
  split at h
  · cases h
  next m hm => rw [hm, Except.ok.inj h]

/-- The number of chunks a target may have beyond the scaled number of symbols. -/
def BuildTarget.roundingChunks : BuildTarget → ℕ
  | .raptorcast group => group.group.validators.length - 1
  | _ => 0

theorem StakePartition.length_fromGroup (group : PrimaryBroadcastGroup) :
    (fromGroup group).length ≤ group.group.validators.length - 1 := by
  have hlt : (group.group.validators.filter fun v => decide (v.1 ≠ group.author)).length <
      group.group.validators.length := by
    have hmem := of_decide_eq_true group.author_mem
    obtain ⟨v, hv, hauthor⟩ := mem_map.mp hmem
    exact length_filter_lt_length_iff_exists.mpr ⟨v, hv, by simp [hauthor]⟩
  unfold fromGroup
  dsimp only
  split
  · exact Nat.zero_le _
  · omega

theorem StakePartition.assign_ok {validators : List (NodeId × ℕ)}
    (h : assign env validators numBaseSymbols redundancy = .ok assignment) :
    assignment.targets = [] ∨ ∃ scaled, redundancy.scale numBaseSymbols = some scaled ∧
      assignment.targets.length ≤ scaled + validators.length := by
  unfold assign at h
  split at h
  · cases h
    exact .inl rfl
  obtain ⟨scaled, hscaled, h⟩ := bind_eq_ok.mp h
  obtain ⟨_, -, h⟩ := bind_eq_ok.mp h
  obtain ⟨_, hcap, h⟩ := bind_eq_ok.mp h
  cases h
  exact .inr ⟨scaled, Redundancy.scaleChunks_ok hscaled, ensure_eq_ok.mp hcap⟩

/-- Every chunk starts as a zeroed buffer, and its id is below the scaled number of symbols
with the rounding chunks of its target. -/
theorem generateChunks_ok {target : BuildTarget} {selfNodeId : NodeId} {appMessageHash : MerkleHash}
    {layout : PacketLayout}
    (h : generateChunks env target selfNodeId appMessageHash numBaseSymbols redundancy layout =
      .ok chunks) :
    ∀ c ∈ chunks, c.payload = replicate layout.segmentLen 0 ∧
      ∃ scaled, redundancy.scale numBaseSymbols = some scaled ∧
        c.chunkId < scaled + target.roundingChunks := by
  obtain ⟨cs, hcs, h⟩ := bind_eq_ok.mp h
  obtain ⟨_, -, h⟩ := bind_eq_ok.mp h
  cases h
  cases target with
  | pointToPoint groupId recipient =>
    simp only [chunksFor] at hcs
    split at hcs
    · cases hcs
      simp
    obtain ⟨scaled, hscaled, hcs⟩ := bind_eq_ok.mp hcs
    obtain ⟨_, -, hcs⟩ := bind_eq_ok.mp hcs
    intro c hc
    obtain ⟨hpay, hid⟩ := materialize_ok hcs c hc
    refine ⟨hpay, scaled, Redundancy.scaleChunks_ok hscaled, ?_⟩
    simpa [unicast, BuildTarget.roundingChunks] using hid
  | broadcast group =>
    obtain ⟨scaled, hscaled, hcs⟩ := bind_eq_ok.mp hcs
    obtain ⟨_, -, hcs⟩ := bind_eq_ok.mp hcs
    obtain ⟨lists, hlists, hcs⟩ := bind_eq_ok.mp hcs
    cases hcs
    intro c hc
    obtain ⟨l, hmem, hc⟩ := mem_flatten.mp hc
    obtain ⟨i, hi, rfl⟩ := mem_iff_getElem.mp hmem
    obtain ⟨hlen, hall⟩ := forall₂_iff_get.mp (forall₂_of_mapM_eq_ok hlists)
    obtain ⟨hpay, hid⟩ := materialize_ok (hall i (hlen ▸ hi) hi) c hc
    refine ⟨hpay, scaled, Redundancy.scaleChunks_ok hscaled, ?_⟩
    simpa [unicast, BuildTarget.roundingChunks] using hid
  | raptorcast group =>
    obtain ⟨assignment, hassign, hcs⟩ := bind_eq_ok.mp hcs
    intro c hc
    obtain ⟨hpay, hid⟩ := materialize_ok hcs c hc
    rcases assign_ok hassign with hnil | ⟨scaled, hscaled, hle⟩
    · simp [hnil] at hid
    refine ⟨hpay, scaled, hscaled, ?_⟩
    have hlen := length_fromGroup group
    rw [env.length_shuffle] at hle
    change c.chunkId < scaled + (group.group.validators.length - 1)
    omega
  | fullNodeRaptorCast group =>
    obtain ⟨assignment, hassign, hcs⟩ := bind_eq_ok.mp hcs
    obtain ⟨scaled, hscaled, hassign⟩ := bind_eq_ok.mp hassign
    intro c hc
    obtain ⟨hpay, hid⟩ := materialize_ok hcs c hc
    refine ⟨hpay, scaled, Redundancy.scaleChunks_ok hscaled, ?_⟩
    split at hassign
    · cases hassign
      simp at hid
    · cases hassign
      simpa [BuildTarget.roundingChunks] using hid

/-! ## Symbols -/

section Symbols

variable {appMessage : Bytes} {layout : PacketLayout}

variable (env appMessage layout) in
def withSymbol (chunk : Chunk) : Chunk :=
  layout.writeSymbol chunk (env.encodeSymbol appMessage layout.symbolLen chunk.chunkId).toList

section

variable (hstart : layout.symbolStart ≤ layout.segmentLen) {done : List Chunk}
  {acc' acc : List Chunk × List ℕ}

include hstart

theorem payload_withSymbol (hfresh : chunk.payload = replicate layout.segmentLen 0) :
    (withSymbol env appMessage layout chunk).payload = replicate layout.symbolStart 0 ++
      (env.encodeSymbol appMessage layout.symbolLen chunk.chunkId).toList := by
  have hbuf : chunk.payload = replicate layout.symbolStart 0 ++
      replicate layout.symbolLen 0 ++ [] := by
    rw [hfresh, append_nil, replicate_append_replicate, symbolLen, Nat.add_sub_cancel' hstart]
  have hwrite := writeAt_of_eq hbuf (length_replicate)
    (show (env.encodeSymbol appMessage layout.symbolLen chunk.chunkId).toList.length = _ by simp)
  rw [append_nil] at hwrite
  exact hwrite

/-- A symbol is read back from where it was written. -/
theorem symbol_withSymbol (hfresh : chunk.payload = replicate layout.segmentLen 0) :
    layout.symbol (withSymbol env appMessage layout chunk) =
      (env.encodeSymbol appMessage layout.symbolLen chunk.chunkId).toList := by
  have hlen : layout.segmentLen = (replicate layout.symbolStart (0 : UInt8) ++
      (env.encodeSymbol appMessage layout.symbolLen chunk.chunkId).toList).length := by
    simp [symbolLen, Nat.add_sub_cancel' hstart]
  rw [symbol, payload_withSymbol hstart hfresh, hlen, take_length, drop_left' length_replicate]

/-- The loop over the chunks: each chunk done has its own symbol, and the table points to
chunks with the id it is asked for. -/
structure EncodeInv (env : BuildEnv) (appMessage : Bytes) (layout : PacketLayout)
    (done : List Chunk) (acc : List Chunk × List ℕ) : Prop where
  done_eq : acc.1 = done.map (withSymbol env appMessage layout)
  fresh : ∀ c ∈ done, c.payload = replicate layout.segmentLen 0
  first : ∀ id j, acc.2[id]? = some (j + 1) → ∃ c, done[j]? = some c ∧ c.chunkId = id

theorem EncodeInv.step (inv : EncodeInv env appMessage layout done acc)
    (hfresh : chunk.payload = replicate layout.segmentLen 0)
    (h : encodeStep env appMessage layout acc chunk = .ok acc') :
    EncodeInv env appMessage layout (done ++ [chunk]) acc' := by
  have hlen : acc.1.length = done.length := by rw [inv.done_eq, length_map]
  have hfresh' : ∀ c ∈ done ++ [chunk], c.payload = replicate layout.segmentLen 0 := by
    intro c hc
    rcases mem_append.mp hc with hc | hc
    · exact inv.fresh c hc
    · rw [mem_singleton.mp hc, hfresh]
  unfold encodeStep at h
  split at h
  · cases h
  · cases h
    refine ⟨by simp [inv.done_eq, withSymbol], hfresh', fun id j hj => ?_⟩
    rw [getElem?_set] at hj
    split at hj
    next heq =>
      split at hj
      · have hj' : j = done.length := by simp at hj; omega
        exact ⟨chunk, by simp [hj'], heq⟩
      · cases hj
    · obtain ⟨c, hc, hid⟩ := inv.first id j hj
      exact ⟨c, List.getElem?_append_left (List.getElem?_eq_some_iff.mp hc).1 ▸ hc, hid⟩
  next j hj =>
    obtain ⟨c, hc, hid⟩ := inv.first _ j hj
    have hsrc : acc.1[j]? = some (withSymbol env appMessage layout c) := by
      rw [inv.done_eq, getElem?_map, hc, Option.map_some]
    rw [hsrc] at h
    cases h
    refine ⟨?_, hfresh', fun id i hi => ?_⟩
    · have hsym : layout.symbol (withSymbol env appMessage layout c) = _ := symbol_withSymbol
        hstart (inv.fresh c (mem_of_getElem? hc))
      simp [inv.done_eq, withSymbol] at hsym ⊢
      rw [hsym, hid]
    · obtain ⟨c', hc', hid'⟩ := inv.first id i hi
      exact ⟨c', List.getElem?_append_left (List.getElem?_eq_some_iff.mp hc').1 ▸ hc', hid'⟩

theorem EncodeInv.foldlM (inv : EncodeInv env appMessage layout done acc)
    (hfresh : ∀ c ∈ chunks, c.payload = replicate layout.segmentLen 0)
    (h : chunks.foldlM (encodeStep env appMessage layout) acc = .ok acc') :
    EncodeInv env appMessage layout (done ++ chunks) acc' := by
  induction chunks generalizing done acc with
  | nil =>
    cases h
    rwa [append_nil]
  | cons c cs ih =>
    obtain ⟨acc₁, hstep, h⟩ := bind_eq_ok.mp h
    have inv₁ := inv.step hstart (hfresh c mem_cons_self) hstep
    have inv₂ := ih inv₁ (fun c hc => hfresh c (mem_cons_of_mem _ hc)) h
    rwa [append_assoc] at inv₂

/-- Every chunk gets the symbol of its id. -/
theorem encodeSymbols_eq {chunks' : List Chunk}
    (hfresh : ∀ c ∈ chunks, c.payload = replicate layout.segmentLen 0)
    (h : encodeSymbols env appMessage chunks layout = .ok chunks') :
    encoderSymbols appMessage.length layout.symbolLen ≤ SOURCE_SYMBOLS_MAX ∧
      chunks' = chunks.map (withSymbol env appMessage layout) := by
  obtain ⟨_, -, h⟩ := bind_eq_ok.mp h
  obtain ⟨_, hmax, h⟩ := bind_eq_ok.mp h
  obtain ⟨acc, hacc, h⟩ := bind_eq_ok.mp h
  cases h
  have inv : EncodeInv env appMessage layout [] ([], replicate chunks.length 0) := by
    refine ⟨rfl, by simp, fun id j hj => ?_⟩
    have := eq_of_mem_replicate (mem_of_getElem? hj)
    omega
  exact ⟨ensure_eq_ok.mp hmax, (inv.foldlM hstart hfresh hacc).done_eq⟩

end

end Symbols

/-! ## Batches -/

theorem flatten_merkleBatches (hn : n ≠ 0) (chunks : List Chunk) :
    (merkleBatches n chunks).flatten = chunks := by
  fun_induction merkleBatches n chunks with
  | case1 chunks h =>
    rcases h with rfl | h
    · rfl
    · exact absurd h hn
  | case2 chunks h ih => rw [flatten_cons, ih, take_append_drop]

theorem length_le_of_mem_merkleBatches (h : batch ∈ merkleBatches n chunks) : batch.length ≤ n := by
  fun_induction merkleBatches n chunks with
  | case1 chunks _ => cases h
  | case2 chunks _ ih =>
    rcases mem_cons.mp h with rfl | h
    · exact length_take_le _ _
    · exact ih h

section Batches

variable {layout : PacketLayout} {symbol header : Bytes}

variable (env) in
/-- The header of a chunk at a leaf of its batch. -/
def chunkHeaderOf (chunk : Chunk) (leafIndex : UInt8) : RaptorcastChunkHeaderV0 :=
  ⟨(env.computeHash chunk.recipient).toList ++ [leafIndex, 0] ++ leBytes 2 chunk.chunkId, by simp⟩

theorem writeChunkHeader_ok {chunk' : Chunk} {leafIndex : UInt8}
    (hpay : chunk.payload = replicate layout.symbolStart 0 ++ symbol)
    (h : layout.writeChunkHeader env chunk leafIndex = .ok chunk') :
    chunk.chunkId < 2 ^ 16 ∧ chunk' = Chunk.mk chunk.chunkId chunk.recipient
      (replicate layout.chunkHeaderStart 0 ++ (chunkHeaderOf env chunk leafIndex).toList ++
        symbol) := by
  obtain ⟨_, hid, h⟩ := bind_eq_ok.mp h
  refine ⟨ensure_eq_ok.mp hid, ?_⟩
  cases h
  congr 1
  set zeros := replicate layout.chunkHeaderStart (0 : UInt8) with hzeros
  set recipient := (env.computeHash chunk.recipient).toList with hrecipient
  have hlen : zeros.length = layout.chunkHeaderStart := by simp [hzeros]
  have hreclen : recipient.length = 20 := by simp [hrecipient]
  have hbuf : chunk.payload = zeros ++ replicate 20 0 ++ ([0, 0, 0, 0] ++ symbol) := by
    rw [hpay, symbolStart, ← replicate_append_replicate]
    simp [CHUNK_HEADER_LEN, hzeros, replicate]
  rw [writeAt_of_eq hbuf hlen (by simp [hreclen])]
  rw [writeAt_of_eq (show zeros ++ recipient ++ ([0, 0, 0, 0] ++ symbol) =
    (zeros ++ recipient) ++ [0] ++ ([0, 0, 0] ++ symbol) by simp) (by simp [hlen, hreclen])
    (by rfl)]
  rw [writeAt_of_eq (show zeros ++ recipient ++ [leafIndex] ++ ([0, 0, 0] ++ symbol) =
    (zeros ++ recipient ++ [leafIndex, 0]) ++ [0, 0] ++ symbol by simp)
    (by simp [hlen, hreclen]) (by simp)]
  simp [chunkHeaderOf, hrecipient]

def packetBytes (signature : ByteArrayN 65) (header : Bytes) (proof : List MerkleHash)
    (chunkHeader : RaptorcastChunkHeaderV0) (symbol : Bytes) : Bytes :=
  signature.toList ++ header ++ proof.flatMap List.Vector.toList ++ chunkHeader.toList ++ symbol

theorem writeMerkleProof_writeHeader {signature : ByteArrayN 65} {proof : List MerkleHash}
    {chunkHeader : RaptorcastChunkHeaderV0} (hheader : header.length = 43)
    (hstart : layout.chunkHeaderStart = HEADER_LEN + proof.length * 20)
    (hpay : chunk.payload = replicate layout.chunkHeaderStart 0 ++ chunkHeader.toList ++ symbol) :
    writeMerkleProof (writeHeader chunk signature header) proof =
      Chunk.mk chunk.chunkId chunk.recipient
        (packetBytes signature header proof chunkHeader symbol) := by
  have hproof := length_flatMap_toList proof
  unfold writeMerkleProof writeHeader
  congr 1
  set zeros := replicate (proof.length * 20) (0 : UInt8) with hzeros
  set tail := chunkHeader.toList ++ symbol with htail
  have hbuf : chunk.payload = [] ++ replicate 65 0 ++ (replicate 43 0 ++ zeros ++ tail) := by
    rw [hpay, hstart, HEADER_LEN, ← replicate_append_replicate,
      show 65 + 2 + 1 + 8 + 8 + 20 + 4 = 65 + 43 from rfl, ← replicate_append_replicate]
    simp only [htail, hzeros, nil_append, append_assoc]
  have hnil : ([] : Bytes).length = 0 := rfl
  rw [writeAt_of_eq hbuf hnil (by simp)]
  rw [writeAt_of_eq (show [] ++ signature.toList ++ (replicate 43 0 ++ zeros ++ tail) =
    signature.toList ++ replicate 43 0 ++ (zeros ++ tail) by simp) (by simp [SIGNATURE_SIZE])
    (by simp [hheader])]
  rw [writeAt_of_eq (show signature.toList ++ header ++ (zeros ++ tail) =
    (signature.toList ++ header) ++ zeros ++ tail by simp)
    (by simp [hheader, HEADER_LEN]) (by simp [hproof, hzeros])]
  simp [packetBytes, htail]

variable (env) in
/-- A leaf of the tree of a batch. -/
def leafOf (symbol : Chunk → Bytes) (chunk : Chunk) (leafIndex : ℕ) : Bytes :=
  (chunkHeaderOf env chunk (UInt8.ofNat leafIndex)).toList ++ symbol chunk

/-- The packets of a batch: the signature over the header and the root, the proof of the
leaf, the chunk's header and its symbol. -/
theorem writeBatchHeader_ok {key : NodeId} {out : List Chunk} {symbol : Chunk → Bytes} {depth : ℕ}
    (hlayout : layout.chunkHeaderStart = HEADER_LEN + (depth - 1) * 20)
    (hdepth : layout.merkleTreeDepth = depth) (hheader : header.length = 43)
    (hpay : ∀ c ∈ batch, c.payload = replicate layout.symbolStart 0 ++ symbol c)
    (hsegment : ∀ c ∈ batch, layout.symbolStart + (symbol c).length = layout.segmentLen)
    (hbatch : batch.length ≤ 2 ^ (depth - 1))
    (h : writeBatchHeader env layout key header batch = .ok out) :
    ∃ tree, MerkleTree.Built env.hash
        (batch.zipIdx.map fun ci => env.hash (leafOf env symbol ci.1 ci.2)) depth tree ∧
      batch.length = out.length ∧ ∀ i (c : Chunk), batch[i]? = some c → c.chunkId < 2 ^ 16 ∧
        out[i]? = some (Chunk.mk c.chunkId c.recipient (packetBytes
          (env.scheme.serialize (env.scheme.sign key (header ++ tree.root.toList))) header
          (tree.proof i).siblings (chunkHeaderOf env c (UInt8.ofNat i)) (symbol c))) := by
  obtain ⟨chunks, hchunks, h⟩ := bind_eq_ok.mp h
  cases h
  obtain ⟨hlen, hall⟩ := forall₂_iff_get.mp (forall₂_of_mapM_eq_ok hchunks)
  rw [length_zipIdx] at hlen
  -- every chunk of the batch with its own header
  have hheaded : ∀ i (c : Chunk), batch[i]? = some c → c.chunkId < 2 ^ 16 ∧
      chunks[i]? = some (Chunk.mk c.chunkId c.recipient
        (List.replicate layout.chunkHeaderStart 0 ++
          (chunkHeaderOf env c (UInt8.ofNat i)).toList ++ symbol c)) := by
    intro i c hc
    obtain ⟨hi, rfl⟩ := List.getElem?_eq_some_iff.mp hc
    have hstep := hall i (by simpa using hi) (hlen ▸ hi)
    simp only [get_eq_getElem, getElem_zipIdx, Nat.zero_add] at hstep
    obtain ⟨hid, heq⟩ := writeChunkHeader_ok (hpay _ (getElem_mem hi)) hstep
    exact ⟨hid, List.getElem?_eq_some_iff.mpr ⟨hlen ▸ hi, heq⟩⟩
  have hleaves : chunks.map (layout.chunkHash env) =
      batch.zipIdx.map fun ci => env.hash (leafOf env symbol ci.1 ci.2) := by
    refine ext_getElem? fun i => ?_
    rw [getElem?_map, getElem?_map, getElem?_zipIdx]
    cases hc : batch[i]? with
    | none =>
      rw [getElem?_eq_none (hlen ▸ getElem?_eq_none_iff.mp hc)]
      rfl
    | some c =>
      have hseg := hsegment c (mem_of_getElem? hc)
      rw [symbolStart, CHUNK_HEADER_LEN] at hseg
      rw [(hheaded i c hc).2, Option.map_some, chunkHash, take_of_length_le
        (by simp only [length_append, length_replicate, List.Vector.toList_length]
            omega), append_assoc, drop_left' length_replicate]
      simp [leafOf]
  have hbuilt := MerkleTree.built_newWithDepth env.hash (chunks.map (layout.chunkHash env))
    layout.merkleTreeDepth
  generalize MerkleTree.newWithDepth env.hash (chunks.map (layout.chunkHash env))
    layout.merkleTreeDepth = tree at hbuilt ⊢
  rw [hleaves, hdepth] at hbuilt
  refine ⟨tree, hbuilt, by simp [hlen], fun i c hc => ?_⟩
  obtain ⟨hid, hchunk⟩ := hheaded i c hc
  have hi : i < 2 ^ (depth - 1) := Nat.lt_of_lt_of_le (List.getElem?_eq_some_iff.mp hc).1 hbatch
  have hproof : layout.chunkHeaderStart = HEADER_LEN + (tree.proof i).siblings.length * 20 := by
    rw [hlayout, hbuilt.length_siblings hi]
  refine ⟨hid, ?_⟩
  rw [getElem?_map, getElem?_zipIdx, hchunk, Option.map_some, Option.map_some, Nat.zero_add]
  dsimp only
  rw [writeMerkleProof_writeHeader hheader hproof rfl]

end Batches

end MonadBft.Raptorcast
