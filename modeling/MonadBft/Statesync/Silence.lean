import MonadBft.Statesync.Ipc

/-!
# Clients that fall silent

A client of version `STATESYNC_VERSION_V2` or later acknowledges what it gets. If it owes an
acknowledgement and nothing is heard of it for `CLIENT_TIMEOUT`, no more is written to it. A session
is heard of when it starts, and when its client acknowledges a response of it.

The state keeps the time for this, but any acknowledgement that arrives moves it, also one of
another client or for another session. Without those the client is cut off in time
(`silent_client_cut_off`).
-/

namespace MonadBft.Statesync

open List StreamState

variable {N : Type} {s : StreamState N} {w : WipResponse N} {now : ℕ} {nonce : UInt64}
  {event : Event N} {log : List (Entry N)}

/-- The session of a client with this nonce is heard of. -/
def Entry.Hears (entry : Entry N) (client : N) (nonce : UInt64) : Prop :=
  entry.event = .message client (.completion nonce) ∨
    entry.nonce = nonce ∧ ∃ request, .executionRequest client request ∈ entry.outputs

/-- A session, and the time that is kept for it. -/
def WipResponse.timer (w : WipResponse N) : N × UInt64 × ℕ :=
  (w.client, w.response.nonce, w.completionTime)

/-- It was heard of at that time. -/
def Timed (log : List (Entry N)) (timer : N × UInt64 × ℕ) : Prop :=
  ∃ entry ∈ log, entry.Hears timer.1 timer.2.1 ∧ entry.now = timer.2.2

/-- Sending does not touch the timer, and nothing is sent for a session that was given up. -/
theorem sendBatch_spec (w : WipResponse N) (now : ℕ) : (w.sendBatch now).1.timer = w.timer ∧
    ((w.sendBatch now).2 ≠ [] → w.pendingResponseCompletions.isSome = true) := by
  unfold WipResponse.sendBatch
  split
  next hsome => exact ⟨rfl, fun _ => hsome ▸ rfl⟩
  · exact ⟨rfl, absurd rfl⟩

theorem maybeSendBatch_spec (w : WipResponse N) (now : ℕ) :
    (w.maybeSendBatch now).1.timer = w.timer ∧
      ((w.maybeSendBatch now).2 ≠ [] → w.pendingResponseCompletions.isSome = true) := by
  unfold WipResponse.maybeSendBatch
  split
  · exact sendBatch_spec w now
  · exact ⟨rfl, absurd rfl⟩

/-- A session that is in progress after a request was taken up was so before, or starts. -/
theorem wip_tryQueueResponse (hw : (s.tryQueueResponse now nonce).1.wipResponse = some w) :
    s.wipResponse = some w ∨ w.response.nonce = nonce ∧ w.completionTime = now ∧
      ∃ request, .executionRequest w.client request ∈ (s.tryQueueResponse now nonce).2 := by
  unfold tryQueueResponse at hw ⊢
  split at hw
  · exact .inl hw
  next hnone =>
    split at hw
    · exact .inl hw
    next p rest _ =>
      cases hw
      exact .inr ⟨rfl, rfl, p.request, mem_cons_self⟩

variable [DecidableEq N] {r : StreamState N × List (Output N)} {client : N}

/-- An acknowledgement is for the session in progress. -/
def StreamState.Expects (s : StreamState N) (event : Event N) : Prop :=
  ∀ w peer sessionId, s.wipResponse = some w → event = .message peer (.completion sessionId) →
    peer = w.client ∧ sessionId = w.response.nonce

theorem handle_spec {r : WipResponse N × List (Output N)} (hhandle : w.handle now event = some r) :
    (r.1.timer = w.timer ∨ (∃ peer sessionId, event = .message peer (.completion sessionId)) ∧
      r.1.timer = (w.client, w.response.nonce, now)) ∧
    (r.2 ≠ [] → w.pendingResponseCompletions.isSome = true ∧ event ≠ .clientTimeout) := by
  unfold WipResponse.handle at hhandle
  split at hhandle
  · cases hhandle
    obtain ⟨htimer, hsent⟩ := maybeSendBatch_spec (w.pushUpsert _ _) now
    exact ⟨.inl htimer, fun h => ⟨hsent h, nofun⟩⟩
  · cases hhandle
    obtain ⟨htimer, hsent⟩ := maybeSendBatch_spec (w.acknowledged _ _ now) now
    exact ⟨.inr ⟨⟨_, _, rfl⟩, htimer⟩, fun h => ⟨hsent h, nofun⟩⟩
  next ok =>
    cases hhandle
    obtain ⟨htimer, hsent⟩ := maybeSendBatch_spec (w.tcpCompleted ok) now
    refine ⟨.inl htimer, fun h => ⟨?_, nofun⟩⟩
    cases ok with
    | false => cases hsent h
    | true => exact Option.isSome_map.symm.trans (hsent h)
  · cases hhandle
    obtain ⟨htimer, hsent⟩ := sendBatch_spec w now
    exact ⟨.inl htimer, fun h => ⟨hsent h, nofun⟩⟩
  · cases hhandle
    exact ⟨.inl rfl, absurd rfl⟩
  · cases hhandle

theorem wip_handleRequest {request : StateSyncRequest}
    (hw : (s.handleRequest now nonce client request).1.wipResponse = some w) :
    s.wipResponse = some w ∨ w.response.nonce = nonce ∧ w.completionTime = now ∧
      ∃ request', .executionRequest w.client request' ∈
        (s.handleRequest now nonce client request).2 := by
  revert hw
  unfold handleRequest
  split
  · exact .inl
  · dsimp only
    split
    · exact .inl
    · exact wip_tryQueueResponse

theorem timed_step (h : ∀ w, s.wipResponse = some w → Timed log w.timer) (hown : s.Expects event)
    (hstep : s.step now nonce event = .ok r) (hw : r.1.wipResponse = some w) :
    Timed (log ++ [⟨now, nonce, event, r.2⟩]) w.timer := by
  have hold : ∀ w, s.wipResponse = some w → Timed (log ++ [⟨now, nonce, event, r.2⟩]) w.timer := by
    intro w hw
    obtain ⟨entry, hentry, hhears⟩ := h w hw
    exact ⟨entry, mem_append_left _ hentry, hhears⟩
  cases handles_of_step hstep with
  | wip hw₀ hhandle =>
    cases hw
    rcases (handle_spec hhandle).1 with htimer | ⟨⟨peer, sessionId, rfl⟩, htimer⟩
    · exact htimer ▸ hold _ hw₀
    · obtain ⟨rfl, rfl⟩ := hown _ peer sessionId hw₀ rfl
      exact htimer ▸ ⟨_, mem_concat_self, .inl rfl, rfl⟩
  | done =>
    rcases wip_tryQueueResponse hw with hnone | ⟨hnonce, htime, request, hrequest⟩
    · cases hnone
    · exact ⟨_, mem_concat_self, .inr ⟨hnonce.symm, request, mem_append_right _ hrequest⟩,
        htime.symm⟩
  | request =>
    rcases wip_handleRequest hw with hw | ⟨hnonce, htime, hrequest⟩
    · exact hold w hw
    · exact ⟨_, mem_concat_self, .inr ⟨hnonce.symm, hrequest⟩, htime.symm⟩
  | idle => exact hold w hw
  | ignored => exact hold w hw

/-- What is written belongs to a session that was not given up. -/
theorem pending_of_written (hstep : s.step now nonce event = .ok r) (hw : s.wipResponse = some w)
    {response : StateSyncResponse} (hwritten : .message client (.response response) ∈ r.2) :
    w.pendingResponseCompletions.isSome = true ∧ event ≠ .clientTimeout := by
  cases handles_of_step hstep with
  | wip hw' hhandle =>
    cases hw.symm.trans hw'
    exact (handle_spec hhandle).2 (ne_nil_of_mem hwritten)
  | done hw' hfinal =>
    cases hw.symm.trans hw'
    rcases mem_append.mp hwritten with hmem | hmem
    · rcases hfinal with rfl | rfl
      · unfold finalResponse at hmem
        split at hmem
        next hsome => exact ⟨hsome, nofun⟩
        · cases hmem
      · cases hmem
    · exact absurd hmem not_written_tryQueueResponse
  | request => exact absurd hwritten not_written_handleRequest
  | idle => cases hwritten
  | ignored => cases hwritten

/-- In every run in which each acknowledgement that arrives is for the session in progress: a
response to a client that owes an acknowledgement is not written later than `CLIENT_TIMEOUT` after
the session was heard of, provided that the timeout of the client is handled when it is due. -/
theorem silent_client_cut_off {requestTimeout : ℕ} (h : Serves (.new requestTimeout) log s)
    (hown : ∀ before entry s, before ++ [entry] <+: log →
      Serves (.new requestTimeout) before s → s.Expects entry.event)
    {r : StreamState N × List (Output N)} (hstep : s.step now nonce event = .ok r)
    (hdue : ∀ t < now, s.enabled t .clientTimeout = true → event = .clientTimeout)
    (hw : s.wipResponse = some w) (hversion : STATESYNC_VERSION_V2 ≤ w.response.version)
    (howes : 0 < w.unacknowledgedResponses) {response : StateSyncResponse}
    (hwritten : .message w.client (.response response) ∈ r.2) :
    ∃ entry ∈ log, entry.Hears w.client w.response.nonce ∧ now ≤ entry.now + CLIENT_TIMEOUT := by
  have htimed : ∀ w, s.wipResponse = some w → Timed log w.timer := by
    clear hstep hdue hw
    induction h with
    | nil => exact nofun
    | snoc hserves _ hstep ih =>
      refine fun w => timed_step (ih fun before entry s hlog => ?_) ?_ hstep
      · exact hown before entry s (hlog.trans (prefix_append _ _))
      · exact hown _ _ _ (prefix_refl _) hserves
  obtain ⟨entry, hentry, hhears, htime⟩ := htimed w hw
  obtain ⟨hpending, hevent⟩ := pending_of_written hstep hw hwritten
  refine ⟨entry, hentry, hhears, ?_⟩
  by_contra hlate
  refine hevent (hdue (entry.now + CLIENT_TIMEOUT) (by omega) ?_)
  unfold enabled
  rw [hw, htime]
  simp [WipResponse.timer, howes, hpending, hversion]

namespace Ideal

/-- A batch is sent when it is due. -/
def unacknowledged : List (Entry ℕ) × StreamState ℕ :=
  (serve [(0, 5, .message 1 (.request wholeRange)), (MESSAGE_SCHEDULE_DURATION, 0, .timeout)]
    ([], .new 10)).get (by decide +kernel)

/-- The client does not acknowledge it, but another one sends an acknowledgement. -/
def foreign : List (Entry ℕ) × StreamState ℕ :=
  (serve [(CLIENT_TIMEOUT - 1, 0, .message 2 (.completion 0))] unacknowledged).get
    (by decide +kernel)

end Ideal

open Statesync.Ideal

theorem silent_client_cut_off_unacknowledged : ∃ entry ∈ unacknowledged.1,
    entry.Hears 1 5 ∧ 2 * MESSAGE_SCHEDULE_DURATION ≤ entry.now + CLIENT_TIMEOUT := by
  have hserves : Serves (.new 10) unacknowledged.1 unacknowledged.2 :=
    Serves.nil.serve (Option.some_get _).symm
  have hevents : unacknowledged.1.map (·.event) =
      [.message 1 (.request wholeRange), .timeout] := by decide +kernel
  have hstep : unacknowledged.2.step (2 * MESSAGE_SCHEDULE_DURATION) 0 .timeout =
      .ok (unacknowledged.2.handleTimeout _) := rfl
  refine silent_client_cut_off hserves (fun before entry s hlog _ w peer sessionId _ hevent => ?_)
    hstep (fun t ht henabled => ?_) (Option.some_get (by decide +kernel)).symm (by decide +kernel)
    (by decide +kernel) mem_cons_self
  · have hmem := mem_map_of_mem (f := (·.event))
      (hlog.subset (mem_append_right _ mem_cons_self))
    rw [hevents, hevent] at hmem
    simp at hmem
  · unfold enabled at henabled
    obtain ⟨w, hw, hall⟩ := (Option.any_eq_true _ _).mp henabled
    have htime : unacknowledged.2.wipResponse.map (·.completionTime) = some 0 := by
      decide +kernel
    rw [hw] at htime
    have hzero : w.completionTime = 0 := Option.some.inj htime
    have hle := of_decide_eq_true ((Bool.and_eq_true _ _).mp hall).2
    have : 2 * MESSAGE_SCHEDULE_DURATION < CLIENT_TIMEOUT := by decide
    omega

/-- The acknowledgement of another client puts the timeout off: a response is written although
nothing has been heard of the session for longer than `CLIENT_TIMEOUT`. -/
theorem silent_client_served :
    Serves (.new 10) foreign.1 foreign.2 ∧
    foreign.1.map (fun entry => (entry.now, entry.event)) =
      [(0, .message 1 (.request wholeRange)), (MESSAGE_SCHEDULE_DURATION, .timeout),
        (CLIENT_TIMEOUT - 1, .message 2 (.completion 0))] ∧
    unacknowledged.2.enabled (CLIENT_TIMEOUT - 1) .clientTimeout = false ∧
    foreign.2.enabled (CLIENT_TIMEOUT + 1) .clientTimeout = false ∧
    foreign.2.enabled (CLIENT_TIMEOUT + 1) .timeout = true ∧
    ∃ s response, foreign.2.step (CLIENT_TIMEOUT + 1) 0 .timeout =
      .ok (s, [.message 1 (.response response)]) :=
  ⟨(Serves.nil.serve (Option.some_get _).symm).serve (Option.some_get _).symm, by decide +kernel,
    by decide +kernel, by decide +kernel, by decide +kernel, _, _, rfl⟩

end MonadBft.Statesync
