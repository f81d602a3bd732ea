import Mathlib.Data.List.GetD
import MonadBft.Raptorcast.Groups

/-!
# Sending chunks on

A received UDP buffer holds segments of `stride` bytes, each a packet. `UdpState.handleMessage`
validates and decodes them one by one and sends on those that reached this node as first
hop. Consecutive segments are collected in a batch, which the callback gets at once, with
the peers of the batch's first segment. A batch ends at a segment that is not sent on and
at a segment of another author (`BroadcastBatcher.queueBroadcast`, `afterSegment`).

Validation and decoding are given by any functions on any state (`UdpEnv`), so their
outcomes are arbitrary. `outcomes` lists, segment by segment, the chunk and the peers that
`tryRebroadcast` returns for its own group; `copiesTo` counts how often the callback gets a
segment for a peer.

A batch is keyed by the author alone, so a segment of another group goes to the peers of the
first one (`exact_iff_sameReach`, `wrong_peers`).
-/

namespace MonadBft.Raptorcast

open List

/-! ## Segments and their outcomes -/

/-- The receiving node. Validation, decoding and the caches behind them are arbitrary. -/
structure UdpEnv (σ : Type) where
  selfId : NodeId
  /-- The truncated hash of a node's public key. -/
  computeHash : NodeId → MerkleHash
  computeAppMessageHash : Bytes → MerkleHash
  epochValidators : ValidatorGroupMap
  fullNodeGroupMap : FullNodeGroupMap
  /-- Parse and validate a segment. -/
  receive : σ → Bytes → Option ValidatedChunk × σ
  /-- Outer option: was the chunk admitted. Inner option: the decoded message. -/
  tryDecode : σ → ValidatedChunk → Option (Option (NodeId × Bytes)) × σ
  markTainted : σ → ValidatedChunk → σ

variable {σ : Type} (env : UdpEnv σ)

/-- Decode and check the hash of a decoded message. `none`: the chunk is dropped. -/
def UdpEnv.decodeChecked (s : σ) (chunk : ValidatedChunk) : Option (Option (NodeId × Bytes)) × σ :=
  match env.tryDecode s chunk with
  | (none, s) => (none, s)
  | (some none, s) => (some none, s)
  | (some (some (author, message)), s) =>
    if chunk.appMessageHash = env.computeAppMessageHash message then
      (some (some (author, message)), s)
    else (none, env.markTainted s chunk)

def UdpEnv.handleUnicast (s : σ) (chunk : ValidatedChunk) : Option (NodeId × Bytes) × σ :=
  if chunk.recipientHash ≠ env.computeHash env.selfId then (none, s)
  else
    match env.decodeChecked s chunk with
    | (none, s) => (none, s)
    | (some message, s) => (message, s)

def UdpEnv.groupOf (chunk : ValidatedChunk) : Except BroadcastGroupError BroadcastGroup :=
  BroadcastGroup.fromGroupId chunk.groupId chunk.author env.epochValidators env.fullNodeGroupMap

/-- The decoded message, and the peers to send the chunk on to. -/
def UdpEnv.handleBroadcast (s : σ) (chunk : ValidatedChunk) (sender : Option NodeId) :
    Option (NodeId × Bytes) × Option (List NodeId) × σ :=
  match env.groupOf chunk with
  | .error _ => (none, none, s)
  | .ok group =>
    if sender.all group.isSenderValid then
      match env.decodeChecked s chunk with
      | (none, s) => (none, none, s)
      | (some message, s) =>
        let isFirstHopRecipient := chunk.recipientHash = env.computeHash env.selfId
        match group.tryRebroadcast env.selfId isFirstHopRecipient with
        | some ctx => (message, some ctx.peers, s)
        | none => (message, none, s)
    else (none, none, s)

/-- The chunk of a segment that is sent on, with its peers. -/
abbrev Outcome := Option (ValidatedChunk × List NodeId)

/-- What one turn of the loop does before the batch is touched. -/
def UdpEnv.handleSegment (s : σ) (payload : Bytes) (sender : Option NodeId) :
    Option (NodeId × Bytes) × Outcome × σ :=
  match env.receive s payload with
  | (none, s) => (none, none, s)
  | (some chunk, s) =>
    match chunk.broadcastMode with
    | .unspecified =>
      let (message, s) := env.handleUnicast s chunk
      (message, none, s)
    | .primary | .secondary =>
      let (message, targets, s) := env.handleBroadcast s chunk sender
      (message, targets.map fun ts => (chunk, ts), s)

/-! ## The batcher -/

/-- Segments of one author, from `startIdx` to before `endIdx`. -/
structure BroadcastBatch where
  author : NodeId
  targets : List NodeId
  startIdx : ℕ
  endIdx : ℕ

/-- A call of the rebroadcast callback: the buffer from `startIdx` to before `endIdx`, to
the targets. -/
structure RebroadcastCall where
  targets : List NodeId
  startIdx : ℕ
  endIdx : ℕ
  deriving DecidableEq

/-- The batch that is being collected, and the calls made so far. -/
structure BroadcastBatcher where
  batch : Option BroadcastBatch
  calls : List RebroadcastCall

/-- The batch does not end where the segment starts. -/
inductive NotContiguous where
  | assertionFailed
  deriving DecidableEq

namespace BroadcastBatcher

def new : BroadcastBatcher := ⟨none, []⟩

def flush (b : BroadcastBatcher) : BroadcastBatcher :=
  match b.batch with
  | some batch => ⟨none, b.calls ++ [⟨batch.targets, batch.startIdx, batch.endIdx⟩]⟩
  | none => b

def queueBroadcast (b : BroadcastBatcher) (payloadStartIdx payloadEndIdx : ℕ) (author : NodeId)
    (targets : List NodeId) : Except NotContiguous BroadcastBatcher :=
  match b.batch with
  | some batch =>
    if batch.author = author then
      if batch.endIdx = payloadStartIdx then
        .ok { b with batch := some { batch with endIdx := payloadEndIdx } }
      else .error .assertionFailed
    else
      .ok { b.flush with batch := some ⟨author, targets, payloadStartIdx, payloadEndIdx⟩ }
  | none => .ok { b with batch := some ⟨author, targets, payloadStartIdx, payloadEndIdx⟩ }

/-- A segment that is not sent on flushes the batch when its guard is dropped. -/
def afterSegment (b : BroadcastBatcher) (startIdx endIdx : ℕ) :
    Outcome → Except NotContiguous BroadcastBatcher
  | some (chunk, targets) => b.queueBroadcast startIdx endIdx chunk.author targets
  | none => .ok b.flush

end BroadcastBatcher

/-! ## A received buffer -/

variable (message : Bytes) (stride : ℕ) (sender : Option NodeId)

def numSegments : ℕ := (message.length + (stride - 1)) / stride

def segmentStart (k : ℕ) : ℕ := k * stride

/-- The last segment may be shorter. -/
def segmentEnd (k : ℕ) : ℕ := min (k * stride + stride) message.length

def segmentBytes (k : ℕ) : Bytes :=
  (message.take (segmentEnd message stride k)).drop (segmentStart stride k)

/-- What the loop over the segments carries. -/
structure LoopState (σ : Type) where
  state : σ
  batcher : BroadcastBatcher
  messages : List (NodeId × Bytes)

def UdpEnv.segmentStep (ls : LoopState σ) (k : ℕ) : Except NotContiguous (LoopState σ) := do
  let (decoded, queued, state) := env.handleSegment ls.state (segmentBytes message stride k) sender
  let batcher ← ls.batcher.afterSegment (segmentStart stride k) (segmentEnd message stride k) queued
  .ok { state, batcher, messages := ls.messages ++ decoded.toList }

/-- Handle a received buffer: the decoded messages, the calls of the callback and the
state afterwards. What is left in the batch is flushed when the batcher is dropped. -/
def UdpEnv.handleMessage (s : σ) :
    Except NotContiguous (List (NodeId × Bytes) × List RebroadcastCall × σ) := do
  let ls ← (List.range (numSegments message stride)).foldlM
    (env.segmentStep message stride sender) ⟨s, .new, []⟩
  .ok (ls.messages, ls.batcher.flush.calls, ls.state)

/-- The outcomes of segments, one by one. -/
def UdpEnv.outcomesOf : List ℕ → σ → List Outcome
  | [], _ => []
  | k :: ks, s =>
    let (_, queued, s) := env.handleSegment s (segmentBytes message stride k) sender
    queued :: UdpEnv.outcomesOf ks s

/-- The outcomes of the segments of the buffer. -/
def UdpEnv.outcomes (s : σ) : List Outcome :=
  env.outcomesOf message stride sender (List.range (numSegments message stride)) s

/-- The call hands over segment `k`. -/
def RebroadcastCall.covers (call : RebroadcastCall) (k : ℕ) : Prop :=
  call.startIdx ≤ segmentStart stride k ∧ segmentEnd message stride k ≤ call.endIdx

instance (call : RebroadcastCall) (k : ℕ) : Decidable (call.covers message stride k) :=
  inferInstanceAs (Decidable (_ ∧ _))

/-- How often the calls hand segment `k` over for a peer. -/
def copiesTo (calls : List RebroadcastCall) (k : ℕ) (peer : NodeId) : ℕ :=
  (calls.map fun c => if c.covers message stride k then c.targets.count peer else 0).sum

def Outcome.peers : Outcome → List NodeId
  | some (_, targets) => targets
  | none => []

/-! ## What the batcher hands over -/

/-- The author and the targets of the batch a segment ends up in, from those of the batch
before it. -/
def runHead (last : Option (NodeId × List NodeId)) : Outcome → Option (NodeId × List NodeId)
  | none => none
  | some (chunk, targets) =>
    match last with
    | some (author, ts) =>
      if author = chunk.author then some (author, ts) else some (chunk.author, targets)
    | none => some (chunk.author, targets)

/-- The batches that segments end up in, one by one. -/
def runHeads : Option (NodeId × List NodeId) → List Outcome → List (Option (NodeId × List NodeId))
  | _, [] => []
  | last, o :: os => runHead last o :: runHeads (runHead last o) os

section

variable {author : NodeId} {chunk : ValidatedChunk} {targets ts : List NodeId}

theorem runHead_joins (h : author = chunk.author) :
    runHead (some (author, ts)) (some (chunk, targets)) = some (author, ts) := if_pos h

theorem runHead_heads (h : author ≠ chunk.author) :
    runHead (some (author, ts)) (some (chunk, targets)) = some (chunk.author, targets) := if_neg h

end

/-- The targets of a batch. -/
def headTargets (head : Option (NodeId × List NodeId)) : List NodeId := (head.map Prod.snd).getD []

variable {message stride} {targets : List NodeId} {outs : List Outcome} {s : σ} {m : ℕ}

theorem segmentStart_lt {k : ℕ} (hk : k < numSegments message stride) :
    segmentStart stride k < message.length := by
  unfold numSegments at hk
  unfold segmentStart
  rcases Nat.eq_zero_or_pos stride with rfl | hpos
  · simp at hk
  · have := (Nat.le_div_iff_mul_le hpos).mp hk
    rw [Nat.succ_mul] at this
    omega

theorem segmentStart_le {k : ℕ} (h : m ≤ k) : segmentStart stride m ≤ segmentStart stride k :=
  Nat.mul_le_mul_right stride h

variable (message stride) in
theorem segmentEnd_eq (k : ℕ) :
    segmentEnd message stride k = min (segmentStart stride (k + 1)) message.length := by
  unfold segmentEnd segmentStart
  rw [Nat.succ_mul]

/-- A segment ends before the start of segment `j` if it is before it. -/
theorem segmentEnd_le_iff (hpos : 0 < stride) {j : ℕ} (hm : m < numSegments message stride) :
    segmentEnd message stride m ≤ min (segmentStart stride j) message.length ↔ m < j := by
  have hlt := segmentStart_lt hm
  rw [segmentEnd_eq]
  constructor
  · intro hle
    by_contra hjm
    have hj : segmentStart stride j ≤ segmentStart stride m := segmentStart_le (not_lt.mp hjm)
    have hadd : segmentStart stride (m + 1) = segmentStart stride m + stride := Nat.succ_mul m stride
    omega
  · intro hmj
    have : segmentStart stride (m + 1) ≤ segmentStart stride j := segmentStart_le hmj
    omega

theorem segmentStart_le_iff (hpos : 0 < stride) {k : ℕ} :
    segmentStart stride m ≤ segmentStart stride k ↔ m ≤ k :=
  Nat.mul_le_mul_right_iff hpos

namespace BroadcastBatcher

variable {b : BroadcastBatcher} {k : ℕ} {last : Option (NodeId × List NodeId)}

/-- The calls made and the one that the batch will be. -/
def pending (b : BroadcastBatcher) : List RebroadcastCall :=
  b.calls ++ b.batch.toList.map fun x => ⟨x.targets, x.startIdx, x.endIdx⟩

theorem calls_flush (b : BroadcastBatcher) : b.flush.calls = b.pending := by
  rcases b with ⟨_ | x, calls⟩ <;> simp [flush, pending]

theorem batch_flush (b : BroadcastBatcher) : b.flush.batch = none := by
  rcases b with ⟨_ | x, calls⟩ <;> rfl

theorem pending_flush (b : BroadcastBatcher) : b.flush.pending = b.pending := by
  conv_lhs => rw [pending, batch_flush, calls_flush]
  simp

variable (message stride) in
/-- The state of the batcher before segment `k`, with the head of the batch. -/
structure Collected (b : BroadcastBatcher) (k : ℕ) (last : Option (NodeId × List NodeId)) :
    Prop where
  ends : ∀ c ∈ b.pending, c.endIdx ≤ min (segmentStart stride k) message.length
  head : b.batch.map (fun x => (x.author, x.targets)) = last
  batch_end : ∀ x ∈ b.batch, x.endIdx = min (segmentStart stride k) message.length ∧
    x.startIdx ≤ segmentStart stride k

theorem collected_new : Collected message stride .new 0 none where
  ends c hc := by simp [pending, new] at hc
  head := rfl
  batch_end x hx := by simp [new] at hx

theorem covers_iff (hpos : 0 < stride) {startIdx j : ℕ} (hm : m < numSegments message stride) :
    (⟨targets, startIdx, min (segmentStart stride j) message.length⟩ : RebroadcastCall).covers
      message stride m ↔ startIdx ≤ segmentStart stride m ∧ m < j :=
  and_congr_right fun _ => segmentEnd_le_iff hpos hm

theorem copiesTo_append (cs ds : List RebroadcastCall) (m : ℕ) (p : NodeId) :
    copiesTo message stride (cs ++ ds) m p =
      copiesTo message stride cs m p + copiesTo message stride ds m p := by
  simp [copiesTo]

theorem copiesTo_pending (hpos : 0 < stride) {x : BroadcastBatch} (hbatch : b.batch = some x)
    {j : ℕ} (hend : x.endIdx = min (segmentStart stride j) message.length)
    (hm : m < numSegments message stride) (p : NodeId) :
    copiesTo message stride b.pending m p = copiesTo message stride b.calls m p +
      if x.startIdx ≤ segmentStart stride m ∧ m < j then x.targets.count p else 0 := by
  rw [pending, hbatch, copiesTo_append]
  simp [copiesTo, hend, covers_iff hpos hm]

variable (message stride) in
/-- Segment `k` is handed over to the targets of its batch, and the others as before. -/
structure HandsOver (b b' : BroadcastBatcher) (k : ℕ) (head : Option (NodeId × List NodeId)) :
    Prop where
  collected : Collected message stride b' (k + 1) head
  copies : ∀ m < numSegments message stride, ∀ p, copiesTo message stride b'.pending m p =
    copiesTo message stride b.pending m p + if m = k then (headTargets head).count p else 0

/-- The batch goes on to the end of segment `k`. -/
theorem Collected.setBatch (h : Collected message stride b k last) {x : BroadcastBatch}
    (hstart : x.startIdx ≤ segmentStart stride k) (hend : x.endIdx = segmentEnd message stride k) :
    Collected message stride { b with batch := some x } (k + 1) (some (x.author, x.targets)) := by
  have hle : segmentStart stride k ≤ segmentStart stride (k + 1) := segmentStart_le (by omega)
  rw [segmentEnd_eq] at hend
  refine ⟨?_, rfl, ?_⟩
  · intro c hc
    rcases mem_append.mp hc with hc | hc
    · have := h.ends c (mem_append_left _ hc)
      omega
    · obtain rfl : c = _ := by simpa using hc
      exact hend.le
  · intro y hy
    cases hy
    exact ⟨hend, hstart.trans hle⟩

/-- Starting a batch with segment `k` hands that segment over to its targets. -/
theorem Collected.start (hpos : 0 < stride) (h : Collected message stride b k last)
    (hbatch : b.batch = none) (author : NodeId) (targets : List NodeId) :
    HandsOver message stride b { b with batch := some ⟨author, targets, segmentStart stride k,
      segmentEnd message stride k⟩ } k (some (author, targets)) where
  collected := h.setBatch le_rfl rfl
  copies m hm p := by
    have hold : b.pending = b.calls := by simp [pending, hbatch]
    rw [copiesTo_pending hpos rfl (segmentEnd_eq message stride k) hm, hold]
    simp only [segmentStart_le_iff hpos, headTargets, Option.map_some, Option.getD_some]
    split_ifs <;> first | rfl | omega

/-- Extending the batch by segment `k` hands that segment over to the targets of the
batch. -/
theorem Collected.extend (hpos : 0 < stride) {x : BroadcastBatch}
    (h : Collected message stride b k last) (hbatch : b.batch = some x) :
    HandsOver message stride b { b with batch := some { x with
      endIdx := segmentEnd message stride k } } k (some (x.author, x.targets)) := by
  obtain ⟨hend, hstart⟩ := h.batch_end x hbatch
  refine ⟨h.setBatch hstart rfl, fun m hm p => ?_⟩
  have hmk : k = m → x.startIdx ≤ segmentStart stride m := fun hkm => hkm ▸ hstart
  rw [copiesTo_pending hpos rfl (segmentEnd_eq message stride k) hm,
    copiesTo_pending hpos hbatch hend hm, Nat.add_assoc]
  congr 1
  simp only [headTargets, Option.map_some, Option.getD_some]
  split_ifs <;> omega

theorem Collected.flush (h : Collected message stride b k last) :
    Collected message stride b.flush k none where
  ends c hc := h.ends c (pending_flush b ▸ hc)
  head := by rw [batch_flush]; rfl
  batch_end x hx := by rw [batch_flush] at hx; cases hx

theorem Collected.mono (h : Collected message stride b k none) :
    Collected message stride b (k + 1) none where
  ends c hc := by
    have := h.ends c hc
    have : segmentStart stride k ≤ segmentStart stride (k + 1) := segmentStart_le (by omega)
    omega
  head := h.head
  batch_end x hx := by
    have := h.head
    rw [show b.batch = some x from hx] at this
    cases this

/-- One segment: the assertion holds, and the segment is handed over to the targets of
its batch. -/
theorem Collected.afterSegment (hpos : 0 < stride) (h : Collected message stride b k last)
    (hk : k < numSegments message stride) (o : Outcome) :
    ∃ b', b.afterSegment (segmentStart stride k) (segmentEnd message stride k) o = .ok b' ∧
      HandsOver message stride b b' k (runHead last o) := by
  rcases o with _ | ⟨chunk, targets⟩
  · refine ⟨b.flush, rfl, h.flush.mono, fun m _ p => ?_⟩
    rw [pending_flush]
    simp [runHead, headTargets]
  have hhead := h.head
  cases hbatch : b.batch with
  | none =>
    rw [hbatch] at hhead
    subst hhead
    refine ⟨_, ?_, h.start hpos hbatch chunk.author targets⟩
    simp [BroadcastBatcher.afterSegment, queueBroadcast, hbatch]
  | some x =>
    rw [hbatch, Option.map_some] at hhead
    subst hhead
    by_cases hauthor : x.author = chunk.author
    · have hend : x.endIdx = segmentStart stride k := by
        have := (h.batch_end x hbatch).1
        have := segmentStart_lt hk
        omega
      rw [runHead_joins hauthor]
      refine ⟨_, ?_, h.extend hpos hbatch⟩
      simp only [BroadcastBatcher.afterSegment, queueBroadcast, hbatch]
      rw [if_pos hauthor, if_pos hend]
    · obtain ⟨hc, hcopies⟩ := h.flush.start hpos (batch_flush b) chunk.author targets
      rw [pending_flush] at hcopies
      rw [runHead_heads hauthor]
      refine ⟨_, ?_, hc, hcopies⟩
      simp only [BroadcastBatcher.afterSegment, queueBroadcast, hbatch]
      rw [if_neg hauthor]

end BroadcastBatcher

/-! ## Whole buffers -/

section Buffers

variable (message)

@[simp] theorem length_outcomesOf (ks : List ℕ) (s : σ) :
    (env.outcomesOf message stride sender ks s).length = ks.length := by
  induction ks generalizing s with
  | nil => rfl
  | cons k ks ih => simp [UdpEnv.outcomesOf, ih]

/-- The loop from segment `k` on: no assertion fails, and each segment it visits is handed
over to the targets of its batch. -/
theorem foldlM_segmentStep (hpos : 0 < stride) (r : ℕ) :
    ∀ (k : ℕ) (ls : LoopState σ) (last : Option (NodeId × List NodeId)),
      k + r ≤ numSegments message stride →
      ls.batcher.Collected message stride k last →
      ∃ ls', (List.range' k r).foldlM (env.segmentStep message stride sender) ls = .ok ls' ∧
        ∀ m < numSegments message stride, ∀ p,
          copiesTo message stride ls'.batcher.pending m p =
            copiesTo message stride ls.batcher.pending m p +
              if k ≤ m ∧ m < k + r then
                (headTargets ((runHeads last (env.outcomesOf message stride sender
                  (List.range' k r) ls.state)).getD (m - k) none)).count p
              else 0 := by
  induction r with
  | zero =>
    intro k ls last _ _
    refine ⟨ls, rfl, fun m _ p => ?_⟩
    rw [if_neg (by omega), Nat.add_zero]
  | succ r ih =>
    intro k ls last hkr hc
    obtain ⟨decoded, queued, state, hseg⟩ : ∃ decoded queued state,
        env.handleSegment ls.state (segmentBytes message stride k) sender =
          (decoded, queued, state) := ⟨_, _, _, rfl⟩
    obtain ⟨b, hb, hcb, hcopies⟩ := hc.afterSegment hpos (by omega) queued
    obtain ⟨ls', hfold, htotal⟩ :=
      ih (k + 1) ⟨state, b, ls.messages ++ decoded.toList⟩ (runHead last queued) (by omega) hcb
    refine ⟨ls', ?_, fun m hm p => ?_⟩
    · have hstep : env.segmentStep message stride sender ls k =
          .ok ⟨state, b, ls.messages ++ decoded.toList⟩ := by
        simp only [UdpEnv.segmentStep, hseg, hb]
        rfl
      rw [List.range'_succ, foldlM_cons, hstep]
      exact hfold
    · rw [htotal m hm p, hcopies m hm p, Nat.add_assoc]
      congr 1
      simp only [List.range'_succ, UdpEnv.outcomesOf, hseg, runHeads]
      by_cases hmk : m = k
      · subst hmk
        rw [if_pos rfl, if_neg (by omega), if_pos (by omega), Nat.sub_self, getD_cons_zero,
          Nat.add_zero]
      rw [if_neg hmk, Nat.zero_add]
      by_cases hin : k + 1 ≤ m ∧ m < k + 1 + r
      · obtain ⟨j, rfl⟩ : ∃ j, m = k + 1 + j := ⟨m - (k + 1), by omega⟩
        rw [if_pos hin, if_pos (by omega), show k + 1 + j - k = j + 1 by omega,
          Nat.add_sub_cancel_left, getD_cons_succ]
      · rw [if_neg hin, if_neg (by omega)]

/-- A buffer is handled without a failed assertion, and each segment is handed over to the
targets of its batch. -/
theorem handleMessage_copies (hpos : 0 < stride) (s : σ) :
    ∃ messages calls s', env.handleMessage message stride sender s = .ok (messages, calls, s') ∧
      ∀ m < numSegments message stride, ∀ p,
        copiesTo message stride calls m p =
          (headTargets ((runHeads none (env.outcomes message stride sender s)).getD m none)).count
            p := by
  obtain ⟨ls', hfold, htotal⟩ := foldlM_segmentStep env message sender hpos
    (numSegments message stride) 0 ⟨s, .new, []⟩ none (by omega) BroadcastBatcher.collected_new
  rw [← range_eq_range'] at hfold htotal
  refine ⟨ls'.messages, ls'.batcher.flush.calls, ls'.state, ?_, fun m hm p => ?_⟩
  · unfold UdpEnv.handleMessage
    rw [hfold]
    rfl
  · rw [BroadcastBatcher.calls_flush, htotal m hm p, if_pos (by omega)]
    simp [copiesTo, BroadcastBatcher.pending, BroadcastBatcher.new, UdpEnv.outcomes]

end Buffers

/-! ## Exactness -/

/-- The first segment heads a batch. -/
theorem runHeads_zero (h : 0 < outs.length) :
    (runHeads none outs).getD 0 none = runHead none (outs.getD 0 none) := by
  cases outs with
  | nil => simp at h
  | cons o os => rfl

/-- A segment joins the batch of the one before it or heads its own. -/
theorem runHeads_succ {last : Option (NodeId × List NodeId)} (h : m + 1 < outs.length) :
    (runHeads last outs).getD (m + 1) none =
      runHead ((runHeads last outs).getD m none) (outs.getD (m + 1) none) := by
  induction outs generalizing last m with
  | nil => simp at h
  | cons o os ih =>
    cases m with
    | zero =>
      cases os with
      | nil => simp at h
      | cons o' os => rfl
    | succ m => exact ih (by simpa using h)

/-- Adjacent segments that are sent on and have one author have the same peers. -/
def SamePeers (outs : List Outcome) : Prop :=
  ∀ m chunk targets chunk' targets', outs[m]? = some (some (chunk, targets)) →
    outs[m + 1]? = some (some (chunk', targets')) → chunk.author = chunk'.author →
    ∀ p, p ∈ targets ↔ p ∈ targets'

variable {outs : List Outcome} {chunk : ValidatedChunk} {head : Option (NodeId × List NodeId)}
  {o : Outcome}

/-- What a segment's batch has to be for the segment to reach exactly its own peers. -/
def HeadFits (head : Option (NodeId × List NodeId)) : Outcome → Prop
  | none => head = none
  | some (chunk, targets) =>
    ∃ ts, head = some (chunk.author, ts) ∧ ts.Nodup ∧ ∀ p, p ∈ ts ↔ p ∈ targets

theorem headFits_self (h : targets.Nodup) :
    HeadFits (some (chunk.author, targets)) (some (chunk, targets)) :=
  ⟨targets, rfl, h, fun _ => Iff.rfl⟩

theorem HeadFits.count_eq (h : HeadFits head o) (p : NodeId) :
    (headTargets head).count p = if p ∈ o.peers then 1 else 0 := by
  rcases o with _ | ⟨chunk, targets⟩
  · rw [show head = none from h]
    simp [headTargets, Outcome.peers]
  · obtain ⟨ts, rfl, hnd, hmem⟩ := h
    change ts.count p = if p ∈ targets then 1 else 0
    rw [hnd.count]
    simp only [hmem]

/-- If adjacent segments of one author have the same peers, every batch fits all its
segments. -/
theorem headFits_of_samePeers (hnd : ∀ o ∈ outs, o.peers.Nodup) (hsame : SamePeers outs) :
    ∀ m < outs.length, HeadFits ((runHeads none outs).getD m none) (outs.getD m none) := by
  have hmem : ∀ {m : ℕ}, m < outs.length → (outs.getD m none).peers.Nodup := by
    intro m hm
    rw [getD_eq_getElem _ _ hm]
    exact hnd _ (getElem_mem hm)
  intro m hm
  induction m with
  | zero =>
    have hnd0 := hmem hm
    rw [runHeads_zero hm]
    cases ho : outs.getD 0 none with
    | none => rfl
    | some q =>
      rw [ho] at hnd0
      exact headFits_self hnd0
  | succ m ih =>
    have hnd1 := hmem hm
    have hfit := ih (by omega)
    rw [runHeads_succ hm]
    cases ho : outs.getD (m + 1) none with
    | none => rfl
    | some q =>
      obtain ⟨chunk', targets'⟩ := q
      rw [ho] at hnd1
      cases hprev : outs.getD m none with
      | none =>
        rw [hprev] at hfit
        rw [show (runHeads none outs).getD m none = none from hfit]
        exact headFits_self hnd1
      | some q =>
        obtain ⟨chunk, targets⟩ := q
        rw [hprev] at hfit
        obtain ⟨ts, hhead, htsnd, hts⟩ := hfit
        rw [hhead]
        by_cases hauthor : chunk.author = chunk'.author
        · -- the segment joins the batch, whose targets are its own peers too
          rw [runHead_joins hauthor, hauthor]
          refine ⟨ts, rfl, htsnd, fun p => (hts p).trans ?_⟩
          refine hsame m chunk targets chunk' targets' ?_ ?_ hauthor p
          · rw [List.getElem?_eq_getElem (by omega), ← getD_eq_getElem _ none, hprev]
          · rw [List.getElem?_eq_getElem hm, ← getD_eq_getElem _ none, ho]
        · rw [runHead_heads hauthor]
          exact headFits_self hnd1

theorem runHead_author {last : Option (NodeId × List NodeId)}
    (h : runHead last (some (chunk, targets)) = head) : ∃ ts, head = some (chunk.author, ts) := by
  subst h
  cases last with
  | none => exact ⟨_, rfl⟩
  | some q =>
    obtain ⟨author, ts⟩ := q
    by_cases heq : author = chunk.author
    · exact ⟨ts, by rw [runHead_joins heq, heq]⟩
    · exact ⟨targets, runHead_heads heq⟩

/-- Every segment reaches its own peers once exactly if adjacent segments of one author
have the same peers. -/
theorem count_eq_iff_samePeers (hnd : ∀ o ∈ outs, o.peers.Nodup) :
    (∀ m < outs.length, ∀ p, (headTargets ((runHeads none outs).getD m none)).count p =
      if p ∈ (outs.getD m none).peers then 1 else 0) ↔ SamePeers outs := by
  refine ⟨fun h => ?_, fun h m hm => (headFits_of_samePeers hnd h m hm).count_eq⟩
  intro m chunk targets chunk' targets' hm hm' hauthor p
  have hlen : m + 1 < outs.length := (List.getElem?_eq_some_iff.mp hm').1
  have hget : outs.getD m none = some (chunk, targets) := by
    rw [getD_eq_getElem?_getD, hm, Option.getD_some]
  have hget' : outs.getD (m + 1) none = some (chunk', targets') := by
    rw [getD_eq_getElem?_getD, hm', Option.getD_some]
  -- the batch of segment `m` is by its author, so segment `m + 1` joins it
  obtain ⟨ts, hhead⟩ : ∃ ts, (runHeads none outs).getD m none = some (chunk.author, ts) := by
    cases m with
    | zero =>
      rw [runHeads_zero (by omega), hget]
      exact runHead_author rfl
    | succ m =>
      rw [runHeads_succ (by omega), hget]
      exact runHead_author rfl
  have hhead' : (runHeads none outs).getD (m + 1) none = some (chunk.author, ts) := by
    rw [runHeads_succ hlen, hhead, hget', runHead_joins hauthor]
  have h1 := h m (by omega) p
  have h2 := h (m + 1) hlen p
  rw [hhead, hget] at h1
  rw [hhead', hget'] at h2
  have heq : (if p ∈ targets then 1 else 0) = if p ∈ targets' then 1 else 0 := h1.symm.trans h2
  by_cases ha : p ∈ targets <;> by_cases hb : p ∈ targets' <;> simp_all

/-! ## The groups of adjacent segments -/

variable {env} {sender}

/-- A chunk is sent on if it is for an established group, from a valid sender, admitted by
the decoder, not of a message with a wrong hash, and if this node is its first hop and a
member of the group. It goes to the peers of its group. -/
theorem handleBroadcast_queued {chunk : ValidatedChunk}
    (h : (env.handleBroadcast s chunk sender).2.1 = some targets) :
    ∃ group ctx, env.groupOf chunk = .ok group ∧ sender.all group.isSenderValid = true ∧
      (env.decodeChecked s chunk).1.isSome = true ∧
      group.tryRebroadcast env.selfId (chunk.recipientHash = env.computeHash env.selfId) =
        some ctx ∧ targets = ctx.peers := by
  unfold UdpEnv.handleBroadcast at h
  cases hg : env.groupOf chunk with
  | error _ => rw [hg] at h; cases h
  | ok group =>
    rw [hg] at h
    dsimp only at h
    split at h
    next hsender =>
      rcases hd : env.decodeChecked s chunk with ⟨_ | decoded, s'⟩
      · rw [hd] at h; cases h
      rw [hd] at h
      cases hr : group.tryRebroadcast env.selfId
          (chunk.recipientHash = env.computeHash env.selfId) with
      | none => rw [hr] at h; cases h
      | some ctx =>
        rw [hr] at h
        exact ⟨group, ctx, rfl, hsender, rfl, hr, (Option.some.inj h).symm⟩
    · cases h

theorem handleSegment_queued {payload : Bytes}
    (h : (env.handleSegment s payload sender).2.1 = some (chunk, targets)) :
    ∃ s', (env.handleBroadcast s' chunk sender).2.1 = some targets := by
  unfold UdpEnv.handleSegment at h
  rcases hr : env.receive s payload with ⟨_ | c, s'⟩
  · rw [hr] at h; cases h
  rw [hr] at h
  dsimp only at h
  split at h
  · cases h
  all_goals
    obtain ⟨ts, hts, heq⟩ := Option.map_eq_some_iff.mp h
    cases heq
    exact ⟨s', hts⟩

theorem mem_outcomesOf {ks : List ℕ} (h : o ∈ env.outcomesOf message stride sender ks s) :
    ∃ s' payload, o = (env.handleSegment s' payload sender).2.1 := by
  induction ks generalizing s with
  | nil => cases h
  | cons k ks ih =>
    rcases mem_cons.mp h with heq | hmem
    · exact ⟨_, _, heq⟩
    · exact ih hmem

/-- The peers of an outcome are those its chunk's group reaches. -/
theorem outcome_reaches (h : some (chunk, targets) ∈ env.outcomes message stride sender s) :
    targets.Nodup ∧ ∃ group, env.groupOf chunk = .ok group ∧
      ∀ p, p ∈ targets ↔ group.Reaches env.selfId p := by
  obtain ⟨s', payload, hq⟩ := mem_outcomesOf h
  obtain ⟨s'', hb⟩ := handleSegment_queued hq.symm
  obtain ⟨group, ctx, hgroup, -, -, hctx, rfl⟩ := handleBroadcast_queued hb
  exact ⟨BroadcastGroup.nodup_peers hctx, group, hgroup, BroadcastGroup.mem_peers hctx⟩

variable (env) in
/-- Adjacent segments that are sent on and have one author are for groups that reach the
same nodes. -/
def SameReach (outs : List Outcome) : Prop :=
  ∀ m chunk targets chunk' targets', outs[m]? = some (some (chunk, targets)) →
    outs[m + 1]? = some (some (chunk', targets')) → chunk.author = chunk'.author →
    ∀ group group', env.groupOf chunk = .ok group → env.groupOf chunk' = .ok group' →
      ∀ node, group.Reaches env.selfId node ↔ group'.Reaches env.selfId node

theorem samePeers_iff_sameReach (s : σ) :
    SamePeers (env.outcomes message stride sender s) ↔
      SameReach env (env.outcomes message stride sender s) := by
  have hreach : ∀ {m : ℕ} {chunk : ValidatedChunk} {targets : List NodeId},
      (env.outcomes message stride sender s)[m]? = some (some (chunk, targets)) →
      ∃ group, env.groupOf chunk = .ok group ∧ ∀ p, p ∈ targets ↔ group.Reaches env.selfId p :=
    fun hm => (outcome_reaches (mem_of_getElem? hm)).2
  constructor
  · intro h m chunk targets chunk' targets' hm hm' hauthor group group' hg hg' node
    obtain ⟨g, hg1, hr⟩ := hreach hm
    obtain ⟨g', hg1', hr'⟩ := hreach hm'
    cases hg.symm.trans hg1
    cases hg'.symm.trans hg1'
    rw [← hr, ← hr']
    exact h m chunk targets chunk' targets' hm hm' hauthor node
  · intro h m chunk targets chunk' targets' hm hm' hauthor p
    obtain ⟨g, hg, hr⟩ := hreach hm
    obtain ⟨g', hg', hr'⟩ := hreach hm'
    rw [hr, hr']
    exact h m chunk targets chunk' targets' hm hm' hauthor g g' hg hg' p

/-- A buffer is handled without a failed assertion. Every segment is handed over for
exactly the peers of its own group, once for each, if and only if adjacent segments that are
sent on and have one author are for groups that reach the same nodes. -/
theorem exact_iff_sameReach (env : UdpEnv σ) (message : Bytes) {stride : ℕ} (hpos : 0 < stride)
    (sender : Option NodeId) (s : σ) :
    ∃ messages calls s', env.handleMessage message stride sender s = .ok (messages, calls, s') ∧
      ((∀ m < numSegments message stride, ∀ p,
        copiesTo message stride calls m p =
          if p ∈ ((env.outcomes message stride sender s).getD m none).peers then 1 else 0) ↔
        SameReach env (env.outcomes message stride sender s)) := by
  obtain ⟨messages, calls, s', hrun, hcopies⟩ := handleMessage_copies env message sender hpos s
  refine ⟨messages, calls, s', hrun, ?_⟩
  have hlen : (env.outcomes message stride sender s).length = numSegments message stride := by
    simp [UdpEnv.outcomes]
  have hnd : ∀ o ∈ env.outcomes message stride sender s, o.peers.Nodup := by
    intro o ho
    rcases o with _ | ⟨chunk, targets⟩
    · exact nodup_nil
    · exact (outcome_reaches ho).1
  rw [← samePeers_iff_sameReach, ← count_eq_iff_samePeers hnd, hlen]
  refine forall₂_congr fun m hm => forall_congr' fun p => ?_
  rw [hcopies m hm p]

/-! ## A buffer with two groups -/

namespace TwoEpochs

/-- The validators of an epoch, with equal stake. -/
def validatorsOf (nodes : List NodeId) (h : nodes.Nodup) (hne : nodes ≠ []) : ValidatorSet where
  validators := nodes.map fun n => (n, 1)
  nodup := by simpa [Function.comp_def] using h
  pos := by simp
  ne_nil := by simpa using hne

def nodeHash (node : NodeId) : MerkleHash := firstBytes 20 [UInt8.ofNat node]

/-- A chunk by node 9 for the validators of an epoch, sent to node 0 first. -/
def chunkOf (epoch : ℕ) : ValidatedChunk where
  chunk := []
  message := []
  author := 9
  groupId := .primary epoch
  unixTsMs := 0
  appMessageHash := .default
  appMessageLen := 1
  broadcastMode := .primary
  recipientHash := nodeHash 0
  chunkId := 0
  numSourceSymbols := 1
  encodedSymbolCapacity := 3

/-- Node 0, a validator of epoch 1 with node 1 and of epoch 2 with node 2. A segment is the
number of its epoch. -/
def nodeZero : UdpEnv Unit where
  selfId := 0
  computeHash := nodeHash
  computeAppMessageHash _ := .default
  epochValidators
    | 1 => some (validatorsOf [0, 1, 9] (by decide) (by decide))
    | 2 => some (validatorsOf [0, 2, 9] (by decide) (by decide))
    | _ => none
  fullNodeGroupMap _ := none
  receive s payload := (some (chunkOf ((payload.getD 0 0).toNat)), s)
  tryDecode s _ := (some none, s)
  markTainted s _ := s

/-- Two segments for one epoch. -/
theorem exact_iff_sameReach_oneEpoch :
    ∃ messages calls s', nodeZero.handleMessage [1, 1] 1 none () = .ok (messages, calls, s') ∧
      ((∀ m < numSegments [1, 1] 1, ∀ p,
        copiesTo [1, 1] 1 calls m p =
          if p ∈ ((nodeZero.outcomes [1, 1] 1 none ()).getD m none).peers then 1 else 0) ↔
        SameReach nodeZero (nodeZero.outcomes [1, 1] 1 none ())) :=
  exact_iff_sameReach nodeZero [1, 1] (by decide) none ()

/-- The second segment is for epoch 2 and its peer is node 2, but it is handed over to node
1, in the batch of the first. -/
theorem wrong_peers :
    nodeZero.handleMessage [1, 2] 1 none () = .ok ([], [⟨[1], 0, 2⟩], ()) ∧
      ((nodeZero.outcomes [1, 2] 1 none ()).getD 1 none).peers = [2] ∧
      copiesTo [1, 2] 1 [⟨[1], 0, 2⟩] 1 2 = 0 ∧ copiesTo [1, 2] 1 [⟨[1], 0, 2⟩] 1 1 = 1 := by
  decide +kernel

end TwoEpochs

end MonadBft.Raptorcast
