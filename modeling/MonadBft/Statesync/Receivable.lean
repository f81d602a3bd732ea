import MonadBft.Statesync.Messages

/-!
# Responses that can be received

A server fills a batch as long as the data in it has fewer than `MAX_RESPONSE_SIZE` bytes, and sends
it as one message. Messages of more than `TCP_MESSAGE_LENGTH_LIMIT` bytes are skipped by the socket.

Data that is sent as a byte string takes a few bytes more than it has, so a batch is far below the
limit. In the format of the first version, a byte takes two bytes if it is `0x80` or more, and a
batch may be too long (`response_too_long`), though not if at most `MAX_HIGH_BYTES` of its bytes
are that large (`responses_receivable`).
-/

set_option linter.unusedSectionVars false

namespace MonadBft.Statesync

open List Rlp StateSyncNetworkMessage StreamState

variable {N : Type} [DecidableEq N] {y : StateSyncResponse}

def TCP_MESSAGE_LENGTH_LIMIT : ℕ := 3 * 1024 * 1024

/-- The largest contract code, and the most data that execution puts into an upsert. -/
def MAX_CODE_SIZE : ℕ := 128 * 1024

/-- How many bytes of a batch may take two bytes each. -/
def MAX_HIGH_BYTES : ℕ := 1314000

/-! ## The size of a batch -/

/-- The number of bytes in the data of upserts. -/
def dataSize (upserts : List StateSyncUpsertV1) : ℕ := (upserts.map (·.data.length)).sum

/-- The number of bytes that take two as a number. -/
def highBytes (data : Bytes) : ℕ := data.countP fun b => 0x80 ≤ b.toNat

/-- The number of such bytes in the data of upserts. -/
def highSize (upserts : List StateSyncUpsertV1) : ℕ := (upserts.map (highBytes ·.data)).sum

@[simp] theorem dataSize_nil : dataSize [] = 0 := rfl

@[simp] theorem dataSize_cons (u : StateSyncUpsertV1) (us : List StateSyncUpsertV1) :
    dataSize (u :: us) = u.data.length + dataSize us := rfl

@[simp] theorem dataSize_append (us vs : List StateSyncUpsertV1) :
    dataSize (us ++ vs) = dataSize us + dataSize vs := by
  unfold dataSize
  rw [map_append, sum_append]

@[simp] theorem highSize_cons (u : StateSyncUpsertV1) (us : List StateSyncUpsertV1) :
    highSize (u :: us) = highBytes u.data + highSize us := rfl

theorem uintLength_byte (b : UInt8) : uintLength b.toNat = 1 + if 0x80 ≤ b.toNat then 1 else 0 := by
  unfold uintLength
  by_cases h : b.toNat < 0x80
  · rw [if_pos h, if_neg (by omega)]
  · have hle : (beBytes b.toNat).length ≤ 1 := length_beBytes_le (by have := b.toNat_lt; omega)
    have hpos : 0 < (beBytes b.toNat).length := Header.length_beBytes_pos _ (by omega)
    rw [if_neg h, if_pos (by omega)]
    omega

/-- A byte string as a list of numbers. -/
theorem sum_uintLength (data : Bytes) :
    (data.map fun b => uintLength b.toNat).sum = data.length + highBytes data := by
  unfold highBytes
  induction data with
  | nil => rfl
  | cons b data ih =>
    rw [map_cons, sum_cons, ih, uintLength_byte, length_cons, countP_cons]
    simp only [decide_eq_true_eq]
    omega

theorem highBytes_le (data : Bytes) : highBytes data ≤ data.length := countP_le_length

/-- Headers of anything that is not far too long. -/
theorem listLength_le {n : ℕ} (h : n < 256 ^ 3) : listLength n ≤ n + 4 := by
  have := lengthOfLength_le h
  unfold listLength
  omega

theorem le_listLength (n : ℕ) : n < listLength n := by
  unfold listLength lengthOfLength
  split <;> omega

theorem StateSyncUpsertV1.length_le {u : StateSyncUpsertV1} (h : u.data.length ≤ MAX_CODE_SIZE) :
    u.length ≤ u.data.length + 10 := by
  unfold MAX_CODE_SIZE at h
  have hdata := bytesLength_le u.data
  have hheader : lengthOfLength u.data.length ≤ 1 + 3 := lengthOfLength_le (by omega)
  have hlist := @listLength_le (2 + bytesLength u.data) (by omega)
  unfold StateSyncUpsertV1.length StateSyncUpsertType.length
  rw [sum_cons, sum_cons, sum_nil, Nat.add_zero]
  omega

theorem StateSyncUpsertV0.length_le {u : StateSyncUpsertV0} (h : u.data.length ≤ MAX_CODE_SIZE) :
    u.length ≤ u.data.length + highBytes u.data + 10 := by
  unfold MAX_CODE_SIZE at h
  have hhigh := highBytes_le u.data
  have hdata := @listLength_le (u.data.length + highBytes u.data) (by omega)
  have hlist := @listLength_le (2 + listLength (u.data.length + highBytes u.data)) (by omega)
  unfold StateSyncUpsertV0.length StateSyncUpsertType.length
  rw [sum_cons, sum_cons, sum_nil, Nat.add_zero, sum_uintLength]
  omega

theorem StateSyncUpsertV0.le_length (u : StateSyncUpsertV0) :
    u.data.length + highBytes u.data ≤ u.length := by
  have hdata := le_listLength (u.data.length + highBytes u.data)
  have hlist := le_listLength (2 + listLength (u.data.length + highBytes u.data))
  unfold StateSyncUpsertV0.length StateSyncUpsertType.length
  rw [sum_cons, sum_cons, sum_nil, Nat.add_zero, sum_uintLength]
  omega

theorem sum_lengthV1_le {upserts : List StateSyncUpsertV1}
    (h : ∀ u ∈ upserts, u.data.length ≤ MAX_CODE_SIZE) :
    (upserts.map StateSyncUpsertV1.length).sum ≤ dataSize upserts + 10 * upserts.length := by
  induction upserts with
  | nil => rfl
  | cons u upserts ih =>
    have hu := StateSyncUpsertV1.length_le (h u mem_cons_self)
    have hrest := ih fun v hv => h v (mem_cons_of_mem _ hv)
    rw [map_cons, sum_cons, dataSize_cons, length_cons]
    omega

theorem sum_lengthV0_le {upserts : List StateSyncUpsertV1}
    (h : ∀ u ∈ upserts, u.data.length ≤ MAX_CODE_SIZE) :
    ((upserts.map StateSyncUpsertV1.asV0).map StateSyncUpsertV0.length).sum
      ≤ dataSize upserts + highSize upserts + 10 * upserts.length := by
  induction upserts with
  | nil => rfl
  | cons u upserts ih =>
    have hu : u.asV0.length ≤ u.data.length + highBytes u.data + 10 :=
      StateSyncUpsertV0.length_le (h u mem_cons_self)
    have hrest := ih fun v hv => h v (mem_cons_of_mem _ hv)
    rw [map_cons, map_cons, sum_cons, dataSize_cons, highSize_cons, length_cons]
    omega

theorem le_sum_lengthV0 (upserts : List StateSyncUpsertV1) :
    dataSize upserts + highSize upserts
      ≤ ((upserts.map StateSyncUpsertV1.asV0).map StateSyncUpsertV0.length).sum := by
  induction upserts with
  | nil => rfl
  | cons u upserts ih =>
    have hu : u.data.length + highBytes u.data ≤ u.asV0.length := u.asV0.le_length
    rw [map_cons, map_cons, sum_cons, dataSize_cons, highSize_cons]
    omega

/-! ## The size of a response -/

/-- What a server puts into a response. -/
structure Sendable (y : StateSyncResponse) : Prop where
  version_eq : y.version = y.request.version
  compatible : y.request.version.isCompatible = true
  count_le : y.response.length ≤ MAX_UPSERTS_PER_RESPONSE
  data_le : ∀ u ∈ y.response, u.data.length ≤ MAX_CODE_SIZE
  size_lt : dataSize y.response < MAX_RESPONSE_SIZE + MAX_CODE_SIZE

/-- The batch is in the new format, or few of its bytes take two in the old one. -/
def Legible (request : StateSyncRequest) (upserts : List StateSyncUpsertV1) : Prop :=
  STATESYNC_VERSION_V1 ≤ request.version ∨ highSize upserts ≤ MAX_HIGH_BYTES

theorem highSize_le (upserts : List StateSyncUpsertV1) : highSize upserts ≤ dataSize upserts := by
  induction upserts with
  | nil => exact le_rfl
  | cons u upserts ih =>
    have := highBytes_le u.data
    rw [highSize_cons, dataSize_cons]
    omega

namespace StateSyncResponse

variable {y : StateSyncResponse}

theorem lengthUpserts_le (h : Sendable y) :
    y.lengthUpserts ≤ dataSize y.response +
      (if STATESYNC_VERSION_V1 ≤ y.request.version then 0 else highSize y.response) + 200004 := by
  have hcount := h.count_le
  have hsize := h.size_lt
  unfold MAX_UPSERTS_PER_RESPONSE at hcount
  unfold MAX_RESPONSE_SIZE MAX_CODE_SIZE at hsize
  unfold lengthUpserts
  by_cases hv : STATESYNC_VERSION_V1 ≤ y.request.version
  · rw [if_pos hv, if_pos hv]
    have hsum := sum_lengthV1_le h.data_le
    have := @listLength_le (y.response.map StateSyncUpsertV1.length).sum (by omega)
    omega
  · rw [if_neg hv, if_neg hv]
    have hsum := sum_lengthV0_le h.data_le
    have hhigh := highSize_le y.response
    have := @listLength_le
      ((y.response.map StateSyncUpsertV1.asV0).map StateSyncUpsertV0.length).sum (by omega)
    omega

/-- Everything but the upserts is small. -/
theorem length_le (h : y.lengthUpserts < 256 ^ 3 - 100) : y.length ≤ y.lengthUpserts + 90 := by
  have hversion := y.version.length_le
  have hnonce : uintLength y.nonce.toNat ≤ 1 + 8 := uintLength_le y.nonce.toNat_lt
  have hindex : uintLength y.responseIndex.toNat ≤ 1 + 4 := uintLength_le y.responseIndex.toNat_lt
  have hn : uintLength y.responseN.toNat ≤ 1 + 8 := uintLength_le y.responseN.toNat_lt
  have hrequest := y.request.length_le
  rw [length, sum_cons, sum_cons, sum_cons, sum_cons, sum_cons, sum_cons, sum_nil]
  refine (listLength_le ?_).trans ?_ <;> omega

theorem lengthUpserts_lt_length : y.lengthUpserts < y.length := by
  rw [length, sum_cons, sum_cons, sum_cons, sum_cons, sum_cons]
  refine lt_of_le_of_lt ?_ (le_listLength _)
  omega

end StateSyncResponse

theorem StateSyncNetworkMessage.length_response_le (h : y.length < 256 ^ 3 - 100) :
    length (.response y) ≤ y.length + 29 := by
  have hname : bytesLength STATESYNC_NETWORK_MESSAGE_NAME = 24 := by decide
  have htag : uintLength (2 : UInt8).toNat = 1 := by decide
  rw [length, lengthTagged, sum_cons, sum_cons, sum_cons, sum_nil, hname, htag]
  refine (listLength_le ?_).trans ?_ <;> omega

theorem StateSyncNetworkMessage.lt_length_response (y : StateSyncResponse) :
    y.length < length (.response y) := by
  rw [length, lengthTagged, sum_cons, sum_cons, sum_cons]
  refine lt_of_le_of_lt ?_ (le_listLength _)
  omega

/-- A batch in either format is far below the lengths that need a longer header. -/
theorem Sendable.length_le (h : Sendable y) :
    length (.response y) ≤ dataSize y.response +
      (if STATESYNC_VERSION_V1 ≤ y.request.version then 0 else highSize y.response) + 200123 := by
  have hupserts := StateSyncResponse.lengthUpserts_le h
  have hhigh := highSize_le y.response
  have hsize := h.size_lt
  unfold MAX_RESPONSE_SIZE MAX_CODE_SIZE at hsize
  have hbound : (if STATESYNC_VERSION_V1 ≤ y.request.version then 0 else highSize y.response)
      ≤ highSize y.response := by
    split <;> omega
  have hlength := @StateSyncResponse.length_le y (by omega)
  have := @length_response_le y (by omega)
  omega

theorem Sendable.length_le_limit (h : Sendable y) (hlegible : Legible y.request y.response) :
    length (.response y) ≤ TCP_MESSAGE_LENGTH_LIMIT := by
  have hle := h.length_le
  have hsize := h.size_lt
  unfold MAX_RESPONSE_SIZE MAX_CODE_SIZE at hsize
  unfold TCP_MESSAGE_LENGTH_LIMIT
  rcases hlegible with hv | hhigh
  · rw [if_pos hv] at hle
    omega
  · unfold MAX_HIGH_BYTES at hhigh
    split at hle <;> omega

theorem Sendable.reads (h : Sendable y) :
    Reads decode (encode (.response y))
      (.response y) := by
  refine reads_response h.version_eq h.compatible h.count_le ?_
  rw [length_encode_response]
  have hle := h.length_le
  have hhigh := highSize_le y.response
  have hsize := h.size_lt
  unfold MAX_RESPONSE_SIZE MAX_CODE_SIZE at hsize
  split at hle <;> omega

/-! ## Batches -/

/-- The upserts that an event brings. -/
def Event.upserts : Event N → List StateSyncUpsertV1
  | .execution (.syncUpsert upsertType data) => [⟨upsertType, data⟩]
  | _ => []

/-- The batch in progress can be sent, and its size is known. -/
structure Batching (w : WipResponse N) : Prop where
  sendable : Sendable w.response
  size_eq : w.responseSize = dataSize w.response.response

/-- A response is the batch in progress and what has just come. -/
structure Carries (w : WipResponse N) (upserts : List StateSyncUpsertV1) (y : StateSyncResponse) :
    Prop where
  version_eq : y.version = w.response.version
  request_eq : y.request = w.response.request
  response_eq : y.response = w.response.response ++ upserts

section Batches

variable {w : WipResponse N}

theorem dataSize_nil_lt : dataSize [] < MAX_RESPONSE_SIZE + MAX_CODE_SIZE := by decide

theorem batching_new (client : N) {request : StateSyncRequest} (now : ℕ) (nonce : UInt64)
    (h : request.version.isCompatible = true) :
    Batching (WipResponse.new client request now nonce) :=
  ⟨⟨rfl, h, Nat.zero_le _, fun _ hu => absurd hu not_mem_nil, dataSize_nil_lt⟩, rfl⟩

theorem Batching.nextBatch (h : Batching w) (now : ℕ) : Batching (w.nextBatch now) :=
  ⟨⟨h.sendable.version_eq, h.sendable.compatible, Nat.zero_le _,
    fun _ hu => absurd hu not_mem_nil, dataSize_nil_lt⟩, rfl⟩

theorem Batching.pushUpsert (h : Batching w) (hspace : w.hasSpace = true)
    {upsertType : StateSyncUpsertType} {data : Bytes} (hdata : data.length ≤ MAX_CODE_SIZE) :
    Batching (w.pushUpsert upsertType data) := by
  unfold WipResponse.hasSpace at hspace
  rw [Bool.and_eq_true, decide_eq_true_iff, decide_eq_true_iff, h.size_eq] at hspace
  refine ⟨⟨h.sendable.version_eq, h.sendable.compatible, ?_, ?_, ?_⟩, ?_⟩
  · unfold WipResponse.pushUpsert
    rw [length_append]
    exact hspace.2
  · intro u hu
    rcases mem_append.mp hu with hu | hu
    · exact h.sendable.data_le u hu
    · obtain rfl := mem_singleton.mp hu
      exact hdata
  · unfold WipResponse.pushUpsert
    rw [dataSize_append, dataSize_cons, dataSize_nil]
    dsimp only
    omega
  · unfold WipResponse.pushUpsert
    rw [dataSize_append, dataSize_cons, dataSize_nil, h.size_eq, Nat.add_zero]

/-- A batch that is sent is the one in progress. -/
theorem Batching.sendBatch (h : Batching w) (now : ℕ) :
    Batching (w.sendBatch now).1 ∧
    ∀ client y, .message client (.response y) ∈ (w.sendBatch now).2 → y = w.response := by
  unfold WipResponse.sendBatch
  split
  · refine ⟨⟨(h.nextBatch now).sendable, rfl⟩, fun client y hy => ?_⟩
    cases mem_singleton.mp hy
    rfl
  · exact ⟨h.nextBatch now, fun _ _ hy => absurd hy not_mem_nil⟩

theorem Batching.maybeSendBatch (h : Batching w) (now : ℕ) :
    Batching (w.maybeSendBatch now).1 ∧
    ∀ client y, .message client (.response y) ∈ (w.maybeSendBatch now).2 → y = w.response := by
  unfold WipResponse.maybeSendBatch
  split
  · exact h.sendBatch now
  · exact ⟨h, fun _ _ hy => absurd hy not_mem_nil⟩

end Batches

/-! ## Runs -/

/-- Only requests that can be answered are pending, and the batch in progress can be sent. -/
structure Answering (s : StreamState N) : Prop where
  pending : ∀ p ∈ s.pendingRequests, p.request.version.isCompatible = true
  batching : ∀ w, s.wipResponse = some w → Batching w

/-- What an event does to a state that is answering: it still is, and what is sent is the batch in
progress. -/
structure Answers (s : StreamState N) (upserts : List StateSyncUpsertV1)
    (r : StreamState N × List (Output N)) : Prop where
  answering : Answering r.1
  carries : ∀ client y, .message client (.response y) ∈ r.2 →
    Sendable y ∧ ∃ w, s.wipResponse = some w ∧ Carries w upserts y

section Steps

variable {s s' : StreamState N} {now : ℕ} {nonce : UInt64} {event : Event N}
  {outputs : List (Output N)} {upserts : List StateSyncUpsertV1}
  {r : WipResponse N × List (Output N)} {w : WipResponse N} {requestTimeout : ℕ}

theorem Answering.answers_nil (h : Answering s) (upserts : List StateSyncUpsertV1) :
    Answers s upserts (s, []) :=
  ⟨h, fun _ _ hy => absurd hy not_mem_nil⟩

theorem Answering.setWip (h : Answering s) (hw : s.wipResponse = some w) {batch : StateSyncResponse}
    (hsendable : Sendable batch) (hcarries : Carries w upserts batch)
    (hr : Batching r.1 ∧ ∀ client y, .message client (.response y) ∈ r.2 → y = batch) :
    Answers s upserts (s.setWip r) := by
  refine ⟨⟨h.pending, fun v hv => ?_⟩, fun client y hy => ?_⟩
  · cases hv
    exact hr.1
  · obtain rfl := hr.2 client y hy
    exact ⟨hsendable, w, hw, hcarries⟩

theorem nextRequest_mem {now : ℕ} {p : PendingRequest N} {ps rest : List (PendingRequest N)}
    (h : nextRequest requestTimeout now ps = some (p, rest)) : p ∈ ps ∧ rest ⊆ ps := by
  fun_induction nextRequest requestTimeout now ps with
  | case1 => cases h
  | case2 q ps hstale ih =>
    obtain ⟨hp, hrest⟩ := ih h
    exact ⟨mem_cons_of_mem _ hp, fun q hq => mem_cons_of_mem _ (hrest hq)⟩
  | case3 =>
    cases h
    exact ⟨mem_cons_self, fun q hq => mem_cons_of_mem _ hq⟩

theorem Answering.tryQueueResponse (h : Answering s) (now : ℕ) (nonce : UInt64) :
    Answering (s.tryQueueResponse now nonce).1 := by
  unfold StreamState.tryQueueResponse
  split
  · exact h
  next hw =>
    split
    · exact ⟨fun p hp => absurd hp not_mem_nil, fun w hw' => h.batching w hw'⟩
    next p rest hnext =>
      obtain ⟨hp, hrest⟩ := nextRequest_mem hnext
      refine ⟨fun q hq => h.pending q (hrest hq), fun w hw' => ?_⟩
      cases hw'
      exact batching_new _ _ _ (h.pending p hp)

/-- The batch that an event makes of the one in progress, before some of it is sent. -/
theorem Batching.handle (h : Batching w) (hw : s.wipResponse = some w)
    (henabled : s.enabled now event = true)
    (hdata : ∀ u ∈ event.upserts, u.data.length ≤ MAX_CODE_SIZE)
    (hhandle : w.handle now event = some r) :
    ∃ batch, Sendable batch ∧ Carries w event.upserts batch ∧
      Batching r.1 ∧ ∀ client y, .message client (.response y) ∈ r.2 → y = batch := by
  unfold WipResponse.handle at hhandle
  split at hhandle
  next upsertType data =>
    cases hhandle
    unfold enabled at henabled
    rw [hw] at henabled
    have hpushed : Batching (w.pushUpsert upsertType data) :=
      h.pushUpsert henabled (hdata _ mem_cons_self)
    exact ⟨_, hpushed.sendable, ⟨rfl, rfl, rfl⟩, hpushed.maybeSendBatch now⟩
  next peer sessionId =>
    cases hhandle
    have hsame : Batching (w.acknowledged peer sessionId now) := ⟨h.sendable, h.size_eq⟩
    exact ⟨_, h.sendable, ⟨rfl, rfl, (append_nil _).symm⟩, hsame.maybeSendBatch now⟩
  next ok =>
    cases hhandle
    have hsame : Batching (w.tcpCompleted ok) := ⟨h.sendable, h.size_eq⟩
    exact ⟨_, h.sendable, ⟨rfl, rfl, (append_nil _).symm⟩, hsame.maybeSendBatch now⟩
  · cases hhandle
    exact ⟨_, h.sendable, ⟨rfl, rfl, (append_nil _).symm⟩, h.sendBatch now⟩
  · cases hhandle
    exact ⟨_, h.sendable, ⟨rfl, rfl, (append_nil _).symm⟩, ⟨h.sendable, h.size_eq⟩,
      fun _ _ hy => absurd hy not_mem_nil⟩
  · cases hhandle

theorem Answering.done {done : SyncDone} {final : List (Output N)} (h : Answering s)
    (hw : s.wipResponse = some w) (hfinal : final = StreamState.finalResponse w done ∨ final = []) :
    Answers s [] ((StreamState.tryQueueResponse { s with wipResponse := none } now nonce).1,
      final ++ (StreamState.tryQueueResponse { s with wipResponse := none } now nonce).2) := by
  refine ⟨Answering.tryQueueResponse (s := { s with wipResponse := none })
    ⟨h.pending, fun _ hv => nomatch hv⟩ now nonce, fun client y hy => ?_⟩
  rcases mem_append.mp hy with hy | hy
  · rcases hfinal with rfl | rfl
    · unfold finalResponse at hy
      split at hy
      · cases mem_singleton.mp hy
        exact ⟨{ (h.batching w hw).sendable with }, w, hw, rfl, rfl, (append_nil _).symm⟩
      · cases hy
    · cases hy
  · exact absurd hy not_written_tryQueueResponse

theorem Answering.handleRequest (h : Answering s) (now : ℕ) (nonce : UInt64) (client : N)
    (request : StateSyncRequest) : Answers s [] (s.handleRequest now nonce client request) := by
  refine ⟨?_, fun _ _ hy => absurd hy StreamState.not_written_handleRequest⟩
  unfold StreamState.handleRequest
  by_cases hversion : request.version.isCompatible = true
  · rw [if_neg (by rw [hversion]; decide)]
    split
    · exact ⟨fun p hp => h.pending p (mem_filter.mp hp).1, h.batching⟩
    refine Answering.tryQueueResponse (s := { s with pendingRequests := _ ++ [_] })
      ⟨fun p hp => ?_, h.batching⟩ now nonce
    rcases mem_append.mp hp with hp | hp
    · exact h.pending p (mem_filter.mp hp).1
    · obtain rfl := mem_singleton.mp hp
      exact hversion
  · rw [if_pos (by simpa using hversion)]
    exact h

theorem Answering.step {r : StreamState N × List (Output N)} (h : Answering s)
    (henabled : s.enabled now event = true)
    (hdata : ∀ u ∈ event.upserts, u.data.length ≤ MAX_CODE_SIZE)
    (hstep : s.step now nonce event = .ok r) : Answers s event.upserts r := by
  cases handles_of_step hstep with
  | wip hw hhandle =>
    obtain ⟨batch, hsendable, hcarries, hr⟩ := (h.batching _ hw).handle hw henabled hdata hhandle
    exact h.setWip hw hsendable hcarries hr
  | done hw hfinal => exact h.done hw hfinal
  | request => exact h.handleRequest now nonce _ _
  | idle => exact h.answers_nil _
  | ignored => exact h.answers_nil _

/-- Execution produces no more data at once than the code of a contract has. -/
def OfCodeSize (log : List (Entry N)) : Prop :=
  ∀ entry ∈ log, ∀ u ∈ entry.event.upserts, u.data.length ≤ MAX_CODE_SIZE

instance (log : List (Entry N)) : Decidable (OfCodeSize log) :=
  inferInstanceAs (Decidable (∀ entry ∈ log, ∀ u ∈ entry.event.upserts, _ ≤ MAX_CODE_SIZE))

theorem Serves.answering {log : List (Entry N)} (h : Serves (.new requestTimeout) log s)
    (hdata : OfCodeSize log) : Answering s := by
  induction h with
  | nil => exact ⟨fun _ hp => absurd hp not_mem_nil, fun _ hw => nomatch hw⟩
  | snoc _ henabled hstep ih =>
    have hbefore := ih fun entry hentry => hdata entry (mem_append_left _ hentry)
    exact (hbefore.step henabled (hdata _ mem_concat_self) hstep).answering

/-- Whatever a server has done, a response that it writes next is read back exactly, has the length
that is computed for it, and is not too long for the socket if the batch is legible. -/
theorem responses_receivable {log : List (Entry N)} {requestTimeout : ℕ}
    (h : Serves (.new requestTimeout) log s) (hdata : OfCodeSize log)
    (henabled : s.enabled now event = true)
    (hevent : ∀ u ∈ event.upserts, u.data.length ≤ MAX_CODE_SIZE)
    (hstep : s.step now nonce event = .ok (s', outputs)) {c : N} {y : StateSyncResponse}
    (hy : .message c (.response y) ∈ outputs) :
    Reads StateSyncNetworkMessage.decode (StateSyncNetworkMessage.encode (.response y))
      (.response y) ∧
    (StateSyncNetworkMessage.encode (.response y)).length
      = StateSyncNetworkMessage.length (.response y) ∧
    ((∀ w, s.wipResponse = some w →
        Legible w.response.request (w.response.response ++ event.upserts)) →
      StateSyncNetworkMessage.length (.response y) ≤ TCP_MESSAGE_LENGTH_LIMIT) := by
  obtain ⟨hsendable, w, hw, hcarries⟩ :=
    ((h.answering hdata).step henabled hevent hstep).carries c y hy
  refine ⟨hsendable.reads, length_encode_response y, fun hlegible => ?_⟩
  refine hsendable.length_le_limit ?_
  rw [hcarries.request_eq, hcarries.response_eq]
  exact hlegible w hw

end Steps

namespace Ideal

/-- An upsert has come for a request. -/
def upserted : List (Entry ℕ) × StreamState ℕ :=
  (serve [(0, 5, .message 1 (.request wholeRange)),
    (1, 0, .execution (.syncUpsert .code [7]))] ([], .new 10)).get (by decide +kernel)

/-- The response with it. -/
def upsertedResponse : StateSyncResponse where
  version := SELF_STATESYNC_VERSION
  nonce := 5
  responseIndex := 0
  request := wholeRange
  response := [⟨.code, [7]⟩]
  responseN := 0

/-- It is due. -/
def written : StreamState ℕ × List (Output ℕ) :=
  (upserted.2.step MESSAGE_SCHEDULE_DURATION 0 .timeout).toOption.get (by decide +kernel)

end Ideal

open Statesync.Ideal

theorem responses_receivable_upserted :
    StateSyncNetworkMessage.decode.run
        (StateSyncNetworkMessage.encode (.response upsertedResponse) ++ [1, 2])
      = .ok (.response upsertedResponse, [1, 2]) ∧
    StateSyncNetworkMessage.length (.response upsertedResponse)
      ≤ TCP_MESSAGE_LENGTH_LIMIT := by
  have hserves : Serves (.new 10) upserted.1 upserted.2 := Serves.nil.serve (Option.some_get _).symm
  have hstep : upserted.2.step MESSAGE_SCHEDULE_DURATION 0 .timeout = .ok Ideal.written :=
    eq_ok_get _
  have hversion : upserted.2.wipResponse.all
      (fun w => decide (STATESYNC_VERSION_V1 ≤ w.response.request.version)) = true := by
    decide +kernel
  have h := responses_receivable (c := 1) (y := upsertedResponse) hserves (by decide +kernel)
    (by decide +kernel) (by decide +kernel) hstep (by decide +kernel)
  refine ⟨h.1 _, h.2.2 fun w hw => .inl ?_⟩
  rw [hw, Option.all_some, decide_eq_true_iff] at hversion
  exact hversion

namespace Ideal

/-- A request of the first version. -/
def oldRange : StateSyncRequest := { wholeRange with version := STATESYNC_VERSION_V0 }

def contract : StateSyncUpsertV1 := ⟨.code, List.replicate MAX_CODE_SIZE 0xff⟩

theorem length_contract : contract.data.length = MAX_CODE_SIZE := length_replicate

theorem highBytes_contract : highBytes contract.data = MAX_CODE_SIZE := by
  unfold highBytes contract
  rw [countP_replicate, if_pos (by decide)]

/-- The batch after `k` contracts. -/
def contracts (k : ℕ) : WipResponse ℕ :=
  { WipResponse.new 1 oldRange 0 5 with
    responseSize := k * MAX_CODE_SIZE
    response :=
      { (WipResponse.new 1 oldRange 0 5).response with response := List.replicate k contract } }

theorem pushUpsert_contracts (k : ℕ) :
    (contracts k).pushUpsert contract.upsertType contract.data = contracts (k + 1) := by
  unfold WipResponse.pushUpsert contracts
  rw [length_contract, replicate_succ', Nat.succ_mul]

theorem hasSpace_contracts (k : ℕ) : (contracts k).hasSpace = decide (k < 12) := by
  change (decide (k * MAX_CODE_SIZE < MAX_RESPONSE_SIZE) &&
    decide ((List.replicate k contract).length < MAX_UPSERTS_PER_RESPONSE)) = decide (k < 12)
  unfold MAX_CODE_SIZE MAX_RESPONSE_SIZE MAX_UPSERTS_PER_RESPONSE
  rw [length_replicate, ← Bool.decide_and]
  refine decide_eq_decide.mpr ⟨fun h => ?_, fun h => ?_⟩ <;> omega

theorem dataSize_contracts (k : ℕ) : dataSize (List.replicate k contract) = k * MAX_CODE_SIZE := by
  unfold dataSize
  rw [map_replicate, sum_replicate, length_contract, Nat.nsmul_eq_mul]

theorem highSize_contracts (k : ℕ) : highSize (List.replicate k contract) = k * MAX_CODE_SIZE := by
  unfold highSize
  rw [map_replicate, sum_replicate, highBytes_contract, Nat.nsmul_eq_mul]

def batching (k : ℕ) : StreamState ℕ := ⟨10, [], some (contracts k)⟩

theorem enabled_batching {k : ℕ} (hk : k < 12) :
    (batching k).enabled 0 (.execution (.syncUpsert contract.upsertType contract.data)) = true := by
  rw [enabled, batching, Option.any_some, hasSpace_contracts, decide_eq_true hk]

theorem step_batching (k : ℕ) :
    (batching k).step 0 0 (.execution (.syncUpsert contract.upsertType contract.data))
      = .ok ((batching k).setWip ((contracts (k + 1)).maybeSendBatch 0)) := by
  rw [← pushUpsert_contracts]
  rfl

/-- Eleven contracts have a little less than the data that a batch should have. -/
theorem serves_contracts {k : ℕ} (hk : k < 12) :
    ∃ log, Serves (.new 10) log (batching k) ∧ OfCodeSize log := by
  induction k with
  | zero =>
    have hstep : (StreamState.new 10).step 0 5 (.message 1 (.request oldRange))
        = .ok (batching 0, [.executionRequest 1 oldRange]) := by
      decide +kernel
    refine ⟨_, .snoc .nil rfl hstep, fun entry hentry => ?_⟩
    cases mem_singleton.mp hentry
    exact fun u hu => absurd hu not_mem_nil
  | succ k ih =>
    obtain ⟨log, hserves, hdata⟩ := ih (by omega)
    have hstep := step_batching k
    have hspace : (contracts (k + 1)).hasSpace = true := by
      rw [hasSpace_contracts, decide_eq_true hk]
    rw [WipResponse.maybeSendBatch, hspace] at hstep
    refine ⟨_, hserves.snoc (enabled_batching (by omega)) hstep, fun entry hentry u hu => ?_⟩
    rcases mem_append.mp hentry with hentry | hentry
    · exact hdata entry hentry u hu
    · cases mem_singleton.mp hentry
      cases mem_singleton.mp hu
      exact length_contract.le

end Ideal

/-- With a twelfth contract the batch is sent, but in the old format it is twice as long. -/
theorem response_too_long :
    ∃ log s' outputs, Serves (.new 10) log (batching 11) ∧ OfCodeSize log ∧
      (batching 11).enabled 0
        (.execution (.syncUpsert contract.upsertType contract.data)) = true ∧
      contract.data.length ≤ MAX_CODE_SIZE ∧
      (batching 11).step 0 0
        (.execution (.syncUpsert contract.upsertType contract.data))
        = .ok (s', outputs) ∧
      .message 1 (.response (contracts 12).response) ∈ outputs ∧
      TCP_MESSAGE_LENGTH_LIMIT
        < StateSyncNetworkMessage.length (.response (contracts 12).response) := by
  obtain ⟨log, hserves, hdata⟩ := serves_contracts (show 11 < 12 by omega)
  have hstep := step_batching 11
  have hspace : (contracts 12).hasSpace = false := by
    rfl
  refine ⟨log, _, _, hserves, hdata, enabled_batching (by omega), length_contract.le,
    hstep, mem_cons_self, ?_⟩
  have hupserts : TCP_MESSAGE_LENGTH_LIMIT
      ≤ (((contracts 12).response.response.map StateSyncUpsertV1.asV0).map
        StateSyncUpsertV0.length).sum := by
    have hle := le_sum_lengthV0 (List.replicate 12 contract)
    rw [dataSize_contracts, highSize_contracts] at hle
    exact Nat.le_trans (by decide) hle
  have hlist := le_listLength (((contracts 12).response.response.map
    StateSyncUpsertV1.asV0).map StateSyncUpsertV0.length).sum
  have hlength : (contracts 12).response.lengthUpserts = listLength
      (((contracts 12).response.response.map StateSyncUpsertV1.asV0).map
        StateSyncUpsertV0.length).sum := if_neg (by decide)
  have hresponse := @StateSyncResponse.lengthUpserts_lt_length (contracts 12).response
  have hmessage := lt_length_response (contracts 12).response
  omega

end MonadBft.Statesync
