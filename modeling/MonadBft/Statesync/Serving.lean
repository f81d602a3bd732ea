import MonadBft.Statesync.Ipc

/-!
# What a client is served

In every run, the responses written for a request carry one nonce, are numbered from zero, and hold
the upserts that execution has produced for it, in order and without gap (`Served.Chunked`). They
hold all of them once the final response is written. No more of them wait for the socket or for the
client than may.

A request stays pending until it is served, is stale, or is replaced by its client
(`step_pending`). A request is ignored if it is the one that is being served, and the code does not
ask for whom: the same request of another client is lost (`ignored_for_other_client`).
-/

set_option linter.unusedSectionVars false

namespace MonadBft.Statesync

open List StreamState Served

variable {N : Type} [DecidableEq N] {r : WipResponse N × List (Output N)}

/-! ## Responses of a session -/

/-- A response belongs to the session for a request. -/
structure InSessionOf (request : StateSyncRequest) (nonce : UInt64)
    (response : StateSyncResponse) : Prop where
  nonce_eq : response.nonce = nonce
  request_eq : response.request = request
  version_eq : response.version = request.version
  count : response.response.length ≤ MAX_UPSERTS_PER_RESPONSE

namespace Served

/-- What was written is what was produced, in order, and not too much at once. -/
structure Chunked (x : Served N) : Prop where
  owns : ∀ y ∈ x.written, InSessionOf x.request x.nonce y
  index : x.written.map (·.responseIndex) = (List.range x.written.length).map UInt32.ofNat
  initial : x.written.flatMap (·.response) <+: x.produced
  awaiting : x.written.length ≤ x.completed + MAX_PENDING_RESPONSES
  unacknowledged : STATESYNC_VERSION_V2 ≤ x.request.version →
    x.written.length ≤ x.acknowledged + MAX_UNACKNOWLEDGED_RESPONSES
  final : ∀ y ∈ x.final, InSessionOf x.request x.nonce y ∧ y.responseIndex = UInt32.ofNat x.written.length ∧
    x.written.flatMap (·.response) ++ y.response = x.produced

/-- As long as nothing has failed, everything that was produced has been written or is in the
batch. -/
structure Sending (x : Served N) (w : WipResponse N) (completions : List UInt32) : Prop where
  upserts : x.written.flatMap (·.response) ++ w.response.response = x.produced
  index : w.response.responseIndex = UInt32.ofNat x.written.length
  awaiting : x.written.length = x.completed + completions.length
  pending : completions.length ≤ MAX_PENDING_RESPONSES
  unacknowledged : x.written.length ≤ x.acknowledged + w.unacknowledgedResponses
  bounded : STATESYNC_VERSION_V2 ≤ x.request.version →
    w.unacknowledgedResponses ≤ MAX_UNACKNOWLEDGED_RESPONSES

/-- A session and the response in progress for it. -/
structure Serving (x : Served N) (w : WipResponse N) : Prop where
  chunked : x.Chunked
  client : w.client = x.client
  owns : InSessionOf x.request x.nonce w.response
  final : x.final = none
  sending : ∀ completions, w.pendingResponseCompletions = some completions → x.Sending w completions

variable {x : Served N} {w : WipResponse N} {event : Event N} {now : ℕ} {completions : List UInt32}

/-- Events of a session that is over. -/
theorem Chunked.receive (h : x.Chunked)
    (hevent : ∀ upsertType data, event ≠ .execution (.syncUpsert upsertType data)) :
    (x.receive event).Chunked := by
  unfold Served.receive
  split
  next upsertType data => exact absurd rfl (hevent upsertType data)
  · exact { h with awaiting := h.awaiting.trans (by dsimp only; omega) }
  · split
    · exact { h with unacknowledged := fun hv => (h.unacknowledged hv).trans (by dsimp only; omega) }
    · exact h
  · exact h

theorem chunked_new (client : N) (request : StateSyncRequest) (nonce : UInt64) :
    (Served.new client request nonce).Chunked :=
  ⟨nofun, rfl, nil_prefix, Nat.zero_le _, fun _ => Nat.zero_le _, nofun⟩

theorem serving_new (client : N) (request : StateSyncRequest) (now : ℕ) (nonce : UInt64) :
    (Served.new client request nonce).Serving (.new client request now nonce) where
  chunked := chunked_new client request nonce
  client := rfl
  owns := ⟨rfl, rfl, rfl, Nat.zero_le _⟩
  final := rfl
  sending completions h := by
    cases h
    exact ⟨rfl, rfl, rfl, Nat.zero_le _, Nat.zero_le _, fun _ => Nat.zero_le _⟩

/-! ## Sending a batch -/

theorem write_of_ne (hevent : ∀ done, event ≠ .execution (.syncDone done))
    (response : StateSyncResponse) :
    x.write response event = { x with written := x.written ++ [response] } := by
  unfold write
  split
  next done => exact absurd rfl (hevent done)
  · rfl

theorem canSend_of_some (hsome : w.pendingResponseCompletions = some completions)
    (h : w.canSend = true) :
    completions.length < MAX_PENDING_RESPONSES ∧ (STATESYNC_VERSION_V2 ≤ w.response.version →
      w.unacknowledgedResponses < MAX_UNACKNOWLEDGED_RESPONSES) := by
  unfold WipResponse.canSend at h
  rw [hsome] at h
  rw [Bool.and_eq_true, Bool.or_eq_true, decide_eq_true_iff, decide_eq_true_iff,
    decide_eq_true_iff] at h
  refine ⟨h.1, fun hv => h.2.resolve_left fun hlt => ?_⟩
  rw [StateSyncVersion.le_iff] at hv
  rw [StateSyncVersion.lt_iff] at hlt
  omega

section

variable (h : x.Serving w)

include h

theorem chunked_written (hcan : w.canSend = true)
    (hsome : w.pendingResponseCompletions = some completions) :
    Chunked { x with written := x.written ++ [w.response] } := by
  obtain ⟨hlen, hunack⟩ := canSend_of_some hsome hcan
  have hsend := h.sending completions hsome
  refine ⟨fun y hy => ?_, ?_, ?_, ?_, fun hv => ?_, fun y hy => ?_⟩
  · rcases mem_append.mp hy with hy | hy
    · exact h.chunked.owns y hy
    · obtain rfl := mem_singleton.mp hy
      exact h.owns
  · dsimp only
    rw [map_append, h.chunked.index, length_append, length_singleton,
      range_succ, map_append, map_singleton, map_singleton, hsend.index]
  · dsimp only
    have hall : x.written.flatMap (·.response) ++ w.response.response <+: x.produced :=
      hsend.upserts ▸ prefix_refl _
    rwa [flatMap_append, flatMap_singleton]
  · have := hsend.awaiting
    dsimp only
    rw [length_append, length_singleton]
    omega
  · have := hunack (h.owns.version_eq ▸ hv)
    have := hsend.unacknowledged
    dsimp only
    rw [length_append, length_singleton]
    omega
  · rw [show x.final = none from h.final] at hy
    cases hy

/-- The session after outputs that do not end it. -/
def After (event : Event N) (x : Served N) (r : WipResponse N × List (Output N)) : Prop :=
  ∃ x', (∀ nonce rest, r.2.foldl (noteOutput nonce event) (x :: rest) = x' :: rest) ∧ x'.Serving r.1

theorem Serving.sendBatch (hcan : w.canSend = true)
    (hevent : ∀ done, event ≠ .execution (.syncDone done)) : x.After event (w.sendBatch now) := by
  unfold WipResponse.sendBatch
  cases hsome : w.pendingResponseCompletions with
  | none =>
    refine ⟨x, fun _ _ => rfl, h.chunked, h.client, ?_, h.final, fun _ hc => ?_⟩
    · exact { h.owns with count := Nat.zero_le _ }
    · rw [show (w.nextBatch now).pendingResponseCompletions = none from hsome] at hc
      cases hc
  | some completions =>
    obtain ⟨hlen, hunack⟩ := canSend_of_some hsome hcan
    have hsend := h.sending completions hsome
    refine ⟨{ x with written := x.written ++ [w.response] }, fun nonce rest => ?_,
      chunked_written h hcan hsome, h.client, ?_, h.final, fun _ hc => ?_⟩
    · change x.write w.response event :: rest = _
      rw [write_of_ne hevent]
    · exact { h.owns with count := Nat.zero_le _ }
    · cases hc
      refine ⟨?_, ?_, ?_, ?_, ?_, fun hv => ?_⟩
      · dsimp only
        rw [flatMap_append, flatMap_singleton, hsend.upserts]
        exact append_nil _
      · dsimp only
        rw [length_append, length_singleton]
        change w.response.responseIndex + 1 = _
        rw [hsend.index, UInt32.ofNat_add]
        rfl
      · have := hsend.awaiting
        dsimp only
        rw [length_append, length_append, length_singleton, length_singleton]
        omega
      · rw [length_append, length_singleton]
        omega
      · have := hsend.unacknowledged
        dsimp only
        rw [length_append, length_singleton]
        omega
      · exact hunack (h.owns.version_eq ▸ hv)

theorem Serving.maybeSendBatch (hevent : ∀ done, event ≠ .execution (.syncDone done)) :
    x.After event (w.maybeSendBatch now) := by
  unfold WipResponse.maybeSendBatch
  split
  next hfull =>
    rw [Bool.and_eq_true] at hfull
    exact h.sendBatch hfull.2 hevent
  · exact ⟨x, fun _ _ => rfl, h⟩

/-! ## Events of a session -/

theorem Serving.pushUpsert (hspace : w.hasSpace = true) (upsertType : StateSyncUpsertType)
    (data : Bytes) :
    (x.receive (.execution (.syncUpsert upsertType data))).Serving
      (w.pushUpsert upsertType data) := by
  unfold WipResponse.hasSpace at hspace
  rw [Bool.and_eq_true, decide_eq_true_iff, decide_eq_true_iff] at hspace
  refine ⟨{ h.chunked with
      initial := h.chunked.initial.trans (prefix_append _ _), final := fun y hy => ?_ }, h.client,
    { h.owns with count := ?_ }, h.final, fun completions hc => ?_⟩
  · change y ∈ x.final at hy
    rw [h.final] at hy
    cases hy
  · change (w.response.response ++ [_]).length ≤ _
    rw [length_append, length_singleton]
    omega
  · have hsend := h.sending completions hc
    refine { hsend with upserts := ?_ }
    change x.written.flatMap (·.response) ++ (w.response.response ++ [_]) = x.produced ++ [_]
    rw [← append_assoc, hsend.upserts]

theorem Serving.tcpCompleted (ok : Bool) {c : UInt32}
    (hsome : w.pendingResponseCompletions = some (c :: completions)) :
    (x.receive (.tcpCompletion ok)).Serving (w.tcpCompleted ok) := by
  refine ⟨h.chunked.receive nofun, h.client, h.owns, h.final, fun completions' hc => ?_⟩
  have hsend := h.sending _ hsome
  unfold WipResponse.tcpCompleted at hc
  split at hc
  · rw [hsome] at hc
    cases hc
    refine { hsend with awaiting := ?_, pending := ?_ }
    · have := hsend.awaiting
      change x.written.length = x.completed + 1 + completions.length
      rw [length_cons] at this
      omega
    · have := hsend.pending
      rw [length_cons] at this
      change completions.length ≤ _
      omega
  · cases hc

theorem Serving.givenUp : x.Serving { w with pendingResponseCompletions := none } :=
  { h with sending := nofun }

theorem Serving.acknowledged (peer : N) (sessionId : UInt64) (now : ℕ) :
    (x.receive (.message peer (.completion sessionId))).Serving
      (w.acknowledged peer sessionId now) := by
  unfold WipResponse.acknowledged receive
  dsimp only
  rw [h.client, h.owns.nonce_eq]
  split
  next heq =>
    refine ⟨?_, rfl, h.owns, h.final, fun completions hc => ?_⟩
    · have hreceive := @Chunked.receive _ _ _ (.message peer (.completion sessionId)) h.chunked nofun
      unfold receive at hreceive
      dsimp only at hreceive
      rwa [if_pos heq] at hreceive
    · have hsend := h.sending completions hc
      refine { hsend with unacknowledged := ?_, bounded := fun hv => ?_ }
      · have := hsend.unacknowledged
        dsimp only
        omega
      · have := hsend.bounded hv
        dsimp only
        omega
  · refine ⟨h.chunked, rfl, h.owns, h.final, fun completions hc => ?_⟩
    exact { h.sending completions hc with }

/-- The session goes on. -/
theorem Serving.handle {s : StreamState N} (hwip : s.wipResponse = some w)
    (henabled : s.enabled now event = true) (hhandle : w.handle now event = some r) :
    (x.receive event).After event r := by
  unfold enabled at henabled
  rw [hwip] at henabled
  unfold WipResponse.handle at hhandle
  split at hhandle
  · cases hhandle
    exact (h.pushUpsert henabled _ _).maybeSendBatch nofun
  · cases hhandle
    exact (h.acknowledged _ _ now).maybeSendBatch nofun
  · cases hhandle
    have hany : w.pendingResponseCompletions.any (fun completions => !completions.isEmpty) = true :=
      henabled
    obtain ⟨completions, hsome, hne⟩ := (Option.any_eq_true _ _).mp hany
    cases completions with
    | nil => cases hne
    | cons c completions => exact (h.tcpCompleted _ hsome).maybeSendBatch nofun
  · cases hhandle
    exact h.sendBatch ((Bool.and_eq_true _ _).mp henabled).1 nofun
  · cases hhandle
    exact ⟨x, fun _ _ => rfl, h.givenUp⟩
  · cases hhandle

/-- The final response holds what is left. -/
theorem Serving.chunked_final (hsome : w.pendingResponseCompletions = some completions)
    (n : UInt64) : Chunked { x with final := some { w.response with responseN := n } } := by
  have hsend := h.sending completions hsome
  refine { h.chunked with final := fun y hy => ?_ }
  cases hy
  exact ⟨{ h.owns with }, hsend.index, hsend.upserts⟩

end

end Served

/-! ## Runs -/

variable {s s' : StreamState N} {xs : List (Served N)} {event : Event N} {outputs : List (Output N)}
  {log : List (Entry N)} {now : ℕ} {nonce : UInt64} {w : WipResponse N} {p : PendingRequest N}
  {request : StateSyncRequest}

/-- Everything that was served is in order, and so is what is being served. -/
structure Consistent (s : StreamState N) (xs : List (Served N)) : Prop where
  chunked : ∀ x ∈ xs, x.Chunked
  serving : ∀ w, s.wipResponse = some w → ∃ x rest, xs = x :: rest ∧ x.Serving w

section

variable (h : Consistent s xs)

include h

theorem Consistent.tryQueueResponse (event : Event N) (now : ℕ) (nonce : UInt64) :
    Consistent (s.tryQueueResponse now nonce).1
      ((s.tryQueueResponse now nonce).2.foldl (noteOutput nonce event) xs) := by
  unfold StreamState.tryQueueResponse
  cases hwip : s.wipResponse with
  | some w => exact h
  | none =>
    dsimp only
    split
    · refine ⟨h.chunked, fun w hw => ?_⟩
      cases hw
    next p rest _ =>
      refine ⟨fun x hx => ?_, fun w hw => ?_⟩
      · rcases mem_cons.mp hx with rfl | hx
        · exact chunked_new p.client p.request nonce
        · exact h.chunked x hx
      · cases hw
        exact ⟨_, xs, rfl, serving_new p.client p.request now nonce⟩

omit h in
/-- The response in progress is replaced by that of the same session. -/
theorem Consistent.setWip {x : Served N} {rest : List (Served N)} (hrest : ∀ x ∈ rest, x.Chunked)
    (h : x.After event r) : Consistent (s.setWip r).1
      ((s.setWip r).2.foldl (noteOutput nonce event) (x :: rest)) := by
  obtain ⟨x', hfold, hserving⟩ := h
  unfold StreamState.setWip
  rw [hfold nonce rest]
  refine ⟨fun y hy => ?_, fun w hw => ?_⟩
  · rcases mem_cons.mp hy with rfl | hy
    · exact hserving.chunked
    · exact hrest y hy
  · cases hw
    exact ⟨x', rest, rfl, hserving⟩

/-- A session is over, with its final response if there is one. -/
theorem Consistent.finalResponse (nonce : UInt64) {done : SyncDone} {final : List (Output N)}
    (hwip : s.wipResponse = some w) (hfinal : final = finalResponse w done ∨ final = []) :
    Consistent { s with wipResponse := none }
      (final.foldl (noteOutput nonce (.execution (.syncDone done))) xs) where
  chunked y hy := by
    obtain ⟨x, rest, rfl, hserving⟩ := h.serving w hwip
    rcases hfinal with rfl | rfl
    · unfold finalResponse at hy
      split at hy
      next hsome =>
        obtain ⟨completions, hsome⟩ := Option.isSome_iff_exists.mp hsome
        rcases mem_cons.mp hy with rfl | hy
        · exact hserving.chunked_final hsome done.n
        · exact h.chunked y (mem_cons_of_mem _ hy)
      · exact h.chunked y hy
    · exact h.chunked y hy
  serving w hw := by cases hw

/-- Events that do not touch the response in progress. -/
theorem Consistent.receive
    (hevent : ∀ upsertType data, event ≠ .execution (.syncUpsert upsertType data))
    (hwip : ∀ w (x : Served N), s.wipResponse = some w → x.Serving w →
      (x.receive event).Serving w) :
    Consistent s (noteEvent event xs) where
  chunked x hx := by
    cases xs with
    | nil => cases hx
    | cons y rest =>
      rcases mem_cons.mp hx with rfl | hx
      · exact (h.chunked y mem_cons_self).receive hevent
      · exact h.chunked x (mem_cons_of_mem _ hx)
  serving w hw := by
    obtain ⟨x, rest, rfl, hserving⟩ := h.serving w hw
    exact ⟨_, rest, rfl, hwip w x hw hserving⟩

theorem Consistent.handleRequest {client : N} :
    Consistent (s.handleRequest now nonce client request).1 (record xs ⟨now, nonce,
      .message client (.request request), (s.handleRequest now nonce client request).2⟩) := by
  have hpending : ∀ ps, Consistent { s with pendingRequests := ps }
      (noteEvent (.message client (.request request)) xs) := by
    intro ps
    have hsame : Consistent s (noteEvent (.message client (.request request)) xs) :=
      h.receive nofun fun _ _ _ hserving => hserving
    exact ⟨hsame.chunked, hsame.serving⟩
  unfold StreamState.handleRequest record
  split
  · have hsame := hpending s.pendingRequests
    cases xs with
    | nil => exact hsame
    | cons x rest => exact hsame
  · dsimp only
    split
    · exact hpending _
    · exact (hpending _).tryQueueResponse _ now nonce

theorem Consistent.step {r : StreamState N × List (Output N)} (henabled : s.enabled now event = true)
    (hstep : s.step now nonce event = .ok r) :
    Consistent r.1 (record xs ⟨now, nonce, event, r.2⟩) := by
  cases handles_of_step hstep with
  | wip hwip hhandle =>
    obtain ⟨x, rest, rfl, hserving⟩ := h.serving _ hwip
    exact Consistent.setWip (fun y hy => h.chunked y (mem_cons_of_mem _ hy))
      (hserving.handle hwip henabled hhandle)
  | done hwip hfinal =>
    obtain ⟨x, rest, rfl, -⟩ := h.serving _ hwip
    unfold record
    rw [foldl_append]
    exact (h.finalResponse nonce hwip hfinal).tryQueueResponse _ now nonce
  | request => exact h.handleRequest
  | idle hnone hevent =>
    refine h.receive (fun _ _ => hevent _) fun w _ hw => ?_
    cases hnone.symm.trans hw
  | @ignored peer message hmessage =>
    cases message with
    | completion sessionId => exact absurd rfl (hmessage sessionId)
    | _ => exact h.receive nofun fun _ _ _ hserving => hserving

end

theorem Serves.consistent {requestTimeout : ℕ} (h : Serves (.new requestTimeout) log s) :
    Consistent s (sessions log) := by
  induction h with
  | nil =>
    refine ⟨fun x hx => ?_, fun w hw => ?_⟩
    · cases hx
    · cases hw
  | snoc hrun henabled hstep ih =>
    rw [sessions_snoc]
    exact ih.step henabled hstep

/-! ## Pending requests -/

/-- The requests before the next one are stale. -/
theorem nextRequest_cases (requestTimeout now : ℕ) (ps : List (PendingRequest N)) :
    (nextRequest requestTimeout now ps = none ∧ ∀ p ∈ ps, requestTimeout < now - p.rxTime) ∨
    ∃ stale p rest, nextRequest requestTimeout now ps = some (p, rest) ∧
      ps = stale ++ p :: rest ∧ ∀ q ∈ stale, requestTimeout < now - q.rxTime := by
  induction ps with
  | nil => exact .inl ⟨rfl, by simp⟩
  | cons p ps ih =>
    unfold nextRequest
    split
    next hstale =>
      rcases ih with ⟨hnone, hall⟩ | ⟨stale, q, rest, hsome, rfl, hall⟩
      · exact .inl ⟨hnone, forall_mem_cons.mpr ⟨hstale, hall⟩⟩
      · exact .inr ⟨p :: stale, q, rest, hsome, rfl, forall_mem_cons.mpr ⟨hstale, hall⟩⟩
    · exact .inr ⟨[], p, ps, rfl, rfl, by simp⟩

/-- A pending request is still pending, or is served, or is stale. -/
def Kept (s : StreamState N) (now : ℕ) (r : StreamState N × List (Output N))
    (p : PendingRequest N) : Prop :=
  p ∈ r.1.pendingRequests ∨ .executionRequest p.client p.request ∈ r.2 ∨
    s.requestTimeout < now - p.rxTime

theorem tryQueueResponse_kept (s : StreamState N) (now : ℕ) (nonce : UInt64)
    (hp : p ∈ s.pendingRequests) : Kept s now (s.tryQueueResponse now nonce) p := by
  unfold Kept tryQueueResponse
  cases s.wipResponse with
  | some w => exact .inl hp
  | none =>
    rcases nextRequest_cases s.requestTimeout now s.pendingRequests with
      ⟨hnone, hall⟩ | ⟨stale, q, rest, hsome, hsplit, hall⟩
    · exact .inr (.inr (hall p hp))
    · rw [hsome]
      rw [hsplit] at hp
      rcases mem_append.mp hp with hp | hp
      · exact .inr (.inr (hall p hp))
      · rcases mem_cons.mp hp with rfl | hp
        · exact .inr (.inl mem_cons_self)
        · exact .inl hp

theorem handleRequest_kept (now : ℕ) (nonce : UInt64) (client : N) (request : StateSyncRequest)
    (hp : p ∈ s.pendingRequests) :
    Kept s now (s.handleRequest now nonce client request) p ∨
      ∃ request', Event.message client (.request request) = .message p.client (.request request') ∧
        (p.request.target ≠ request'.target ∨ p.request = request') := by
  unfold handleRequest
  split
  · exact .inl (.inl hp)
  cases hreplaces : replaces client request p with
  | true =>
    unfold replaces at hreplaces
    rw [Bool.and_eq_true, Bool.or_eq_true, decide_eq_true_iff, decide_eq_true_iff,
      decide_eq_true_iff] at hreplaces
    exact .inr ⟨request, by rw [hreplaces.1], hreplaces.2⟩
  | false =>
    have hkept : p ∈ s.pendingRequests.filter fun p => !replaces client request p :=
      mem_filter.mpr ⟨hp, by rw [hreplaces]; rfl⟩
    refine .inl ?_
    split
    · exact .inl hkept
    · exact tryQueueResponse_kept { s with pendingRequests := _ } now nonce
        (mem_append_left _ hkept)

/-- A request is accepted unless it is the one that is being served. -/
theorem handleRequest_accepted (s : StreamState N) (now : ℕ) (nonce : UInt64) (client : N)
    (hversion : request.version.isCompatible = true)
    (hwip : ∀ w, s.wipResponse = some w → w.response.request ≠ request) :
    ⟨client, now, request⟩ ∈ (s.handleRequest now nonce client request).1.pendingRequests ∨
      .executionRequest client request ∈ (s.handleRequest now nonce client request).2 := by
  have hany : ¬ (s.wipResponse.any (·.response.request = request) = true) := by
    intro hany
    obtain ⟨w, hw, heq⟩ := (Option.any_eq_true _ _).mp hany
    exact hwip w hw (of_decide_eq_true heq)
  unfold handleRequest
  rw [hversion]
  rw [if_neg (by simp), if_neg hany]
  have hkept := tryQueueResponse_kept { s with
    pendingRequests := (s.pendingRequests.filter fun p => !replaces client request p) ++
      [⟨client, now, request⟩] } now nonce (mem_append_right _ mem_cons_self)
  rcases hkept with hpending | hserved | hstale
  · exact .inl hpending
  · exact .inr hserved
  · dsimp only at hstale
    omega

/-- A pending request stays, is served, is stale, or is replaced by its client. -/
theorem step_pending (hstep : s.step now nonce event = .ok (s', outputs))
    (hp : p ∈ s.pendingRequests) : Kept s now (s', outputs) p ∨
      ∃ request, event = .message p.client (.request request) ∧
        (p.request.target ≠ request.target ∨ p.request = request) := by
  generalize hr : (s', outputs) = r at hstep ⊢
  cases handles_of_step hstep with
  | wip => exact .inl (.inl hp)
  | done =>
    have hkept : Kept s now (tryQueueResponse { s with wipResponse := none } now nonce)
      p := tryQueueResponse_kept { s with wipResponse := none } now nonce hp
    exact .inl (hkept.imp_right (.imp_left (mem_append_right _)))
  | request => exact handleRequest_kept now nonce _ _ hp
  | idle => exact .inl (.inl hp)
  | ignored => exact .inl (.inl hp)

/-! ## The contract -/

/-- What a client gets for a request. -/
structure Served.Contract (x : Served N) : Prop where
  session : ∀ y ∈ x.responses, y.nonce = x.nonce ∧ y.request = x.request
  index : x.responses.map (·.responseIndex) = (List.range x.responses.length).map UInt32.ofNat
  initial : x.responses.flatMap (·.response) <+: x.produced
  complete : x.final.isSome = true → x.responses.flatMap (·.response) = x.produced
  count : ∀ y ∈ x.responses, y.response.length ≤ MAX_UPSERTS_PER_RESPONSE
  awaiting : x.written.length ≤ x.completed + MAX_PENDING_RESPONSES
  unacknowledged : STATESYNC_VERSION_V2 ≤ x.request.version →
    x.written.length ≤ x.acknowledged + MAX_UNACKNOWLEDGED_RESPONSES

theorem Served.Chunked.contract {x : Served N} (h : x.Chunked) : x.Contract := by
  have hmem : ∀ y ∈ x.responses, InSessionOf x.request x.nonce y := by
    intro y hy
    rcases mem_append.mp hy with hy | hy
    · exact h.owns y hy
    · exact (h.final y (Option.mem_toList.mp hy)).1
  have hcomplete : x.final.isSome = true → x.responses.flatMap (·.response) = x.produced := by
    intro hsome
    obtain ⟨y, hy⟩ := Option.isSome_iff_exists.mp hsome
    unfold responses
    rw [hy, Option.toList_some, flatMap_append, flatMap_singleton]
    exact (h.final y hy).2.2
  refine ⟨fun y hy => ⟨(hmem y hy).nonce_eq, (hmem y hy).request_eq⟩, ?_, ?_, hcomplete,
    fun y hy => (hmem y hy).count, h.awaiting, h.unacknowledged⟩
  · cases hy : x.final with
    | none =>
      unfold responses
      rw [hy, Option.toList_none, append_nil]
      exact h.index
    | some y =>
      unfold responses
      rw [hy, Option.toList_some, map_append, h.index, length_append,
        length_singleton, range_succ, map_append, map_singleton,
        map_singleton, (h.final y hy).2.1]
  · cases hy : x.final with
    | none =>
      unfold responses
      rw [hy, Option.toList_none, append_nil]
      exact h.initial
    | some y =>
      exact hcomplete (by rw [hy]; rfl) ▸ prefix_refl _

/-- In every run, every session meets its contract; a request of a version that is served is
ignored only if it is being served for the same client, provided that the same request is not being
served for another one; and a pending request stays pending until it is served, stale or replaced
by its client. -/
theorem server_contract {requestTimeout : ℕ} (h : Serves (.new requestTimeout) log s) :
    (∀ x ∈ sessions log, x.Contract) ∧
    ∀ {now : ℕ} {nonce : UInt64} {event : Event N} {s' : StreamState N}
      {outputs : List (Output N)}, s.enabled now event = true →
      s.step now nonce event = .ok (s', outputs) →
      (∀ {client : N} {request : StateSyncRequest}, event = .message client (.request request) →
        request.version.isCompatible = true →
        (∀ w, s.wipResponse = some w → w.response.request = request → w.client = client) →
        (∃ w, s.wipResponse = some w ∧ w.client = client ∧ w.response.request = request) ∨
        ⟨client, now, request⟩ ∈ s'.pendingRequests ∨
        .executionRequest client request ∈ outputs) ∧
      ∀ p ∈ s.pendingRequests, p ∈ s'.pendingRequests ∨
        .executionRequest p.client p.request ∈ outputs ∨ s.requestTimeout < now - p.rxTime ∨
        ∃ request, event = .message p.client (.request request) ∧
          (p.request.target ≠ request.target ∨ p.request = request) := by
  refine ⟨fun x hx => (h.consistent.chunked x hx).contract,
    fun {now nonce event s' outputs} _ hstep => ⟨fun {client request} hevent hversion hsame => ?_,
      fun p hp => ?_⟩⟩
  · subst hevent
    by_cases hwip : ∃ w, s.wipResponse = some w ∧ w.response.request = request
    · obtain ⟨w, hw, heq⟩ := hwip
      exact .inl ⟨w, hw, hsame w hw heq, heq⟩
    have haccepted := handleRequest_accepted s now nonce client hversion
      fun w hw heq => hwip ⟨w, hw, heq⟩
    rw [show s.handleRequest now nonce client request = (s', outputs) from Except.ok.inj hstep]
      at haccepted
    exact .inr haccepted
  · rcases step_pending hstep hp with (hpending | hserved | hstale) | hreplaced
    · exact .inl hpending
    · exact .inr (.inl hserved)
    · exact .inr (.inr (.inl hstale))
    · exact .inr (.inr (.inr hreplaced))

namespace Ideal

/-- Two upserts for a client, the first of them sent when it was due. -/
def servedOne : List (Entry ℕ) × StreamState ℕ :=
  (serve [(0, 5, .message 1 (.request wholeRange)),
    (1, 0, .execution (.syncUpsert .code [7])), (MESSAGE_SCHEDULE_DURATION, 0, .timeout),
    (MESSAGE_SCHEDULE_DURATION, 0, .execution (.syncUpsert .account [8, 9])),
    (MESSAGE_SCHEDULE_DURATION, 0, .execution (.syncDone ⟨true, 0, 1⟩))]
    ([], .new 10)).get (by decide +kernel)

def serving : List (Entry ℕ) × StreamState ℕ :=
  (serve [(0, 5, .message 1 (.request wholeRange))] ([], .new 10)).get (by decide +kernel)

end Ideal

open Statesync.Ideal

theorem server_contract_servedOne :
    (sessions servedOne.1).map (fun x => (x.written.length, x.final.isSome)) = [(1, true)] ∧
    ∀ x ∈ sessions servedOne.1, x.Contract :=
  ⟨by decide +kernel, (server_contract (Serves.nil.serve (Option.some_get _).symm)).1⟩

/-- The request of another client is ignored, because it is the same as the one that is being
served. -/
theorem ignored_for_other_client :
    Serves (.new 10) serving.1 serving.2 ∧
    (serving.2.wipResponse.map (·.client)) = some 1 ∧
    serving.2.enabled 1 (.message 2 (.request wholeRange)) = true ∧
    serving.2.step 1 0 (.message 2 (.request wholeRange))
      = .ok (serving.2, []) ∧
    serving.2.pendingRequests = [] :=
  ⟨Serves.nil.serve (Option.some_get _).symm, by decide +kernel, by decide +kernel,
    by decide +kernel, by decide +kernel⟩

end MonadBft.Statesync
