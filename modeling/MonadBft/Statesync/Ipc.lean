import Mathlib.Data.List.Basic
import MonadBft.Prog
import MonadBft.Statesync.Types

/-!
# The statesync server

A node that serves state to others passes one request at a time on to execution, and sends what
execution produces for it to the client in batches (`WipResponse`). A batch is sent when it is full,
when the client or the socket has caught up, or when it is due. At most `MAX_PENDING_RESPONSES`
batches wait for the socket, and a client that acknowledges batches has at most
`MAX_UNACKNOWLEDGED_RESPONSES` of them to acknowledge. Other requests are pending.

`StreamState.step` handles one event. Which events can occur is said by `StreamState.enabled`: the
futures that `poll` selects from. An event comes with the time and with the nonce that a session
draws if one starts. `Output` is what is written, to clients and to execution.

`sessions` reads off a log what was served: for each request passed on to execution, what
execution has produced for it and what has been written to its client.
-/

namespace MonadBft.Statesync

variable {N : Type} [DecidableEq N]

/-! ## State -/

structure SyncDone where
  success : Bool
  /-- `prefix` -/
  prefixValue : UInt64
  n : UInt64
  deriving DecidableEq

inductive ExecutionMessage where
  | syncRequest
  | syncUpsert (upsertType : StateSyncUpsertType) (data : Bytes)
  | syncDone (done : SyncDone)
  deriving DecidableEq

/-- The most data in the upserts of a response, but for the last of them. -/
def MAX_RESPONSE_SIZE : ℕ := 1500000

def MAX_UPSERTS_PER_RESPONSE : ℕ := 20000

def MAX_PENDING_RESPONSES : ℕ := 2

def MAX_UNACKNOWLEDGED_RESPONSES : ℕ := 100

def MESSAGE_SCHEDULE_DURATION : ℕ := 500 * 10 ^ 6

def CLIENT_TIMEOUT : ℕ := 60 * 10 ^ 9

structure PendingRequest (N : Type) where
  /-- `from` -/
  client : N
  rxTime : ℕ
  request : StateSyncRequest
  deriving DecidableEq

structure WipResponse (N : Type) where
  /-- `from` -/
  client : N
  /-- When the next response is due. -/
  nextMessageSchedule : ℕ
  /-- When the last acknowledgement came. -/
  completionTime : ℕ
  /-- The number of bytes in the upserts of the response. -/
  responseSize : ℕ
  response : StateSyncResponse
  unacknowledgedResponses : ℕ
  /-- The responses that have yet to be written to the socket, by their index; none if that has
  failed for one of them. -/
  pendingResponseCompletions : Option (List UInt32)
  deriving DecidableEq

structure StreamState (N : Type) where
  requestTimeout : ℕ
  pendingRequests : List (PendingRequest N)
  wipResponse : Option (WipResponse N)
  deriving DecidableEq

inductive Output (N : Type) where
  | message (client : N) (message : StateSyncNetworkMessage)
  /-- Execution is asked to produce the upserts for a request of a client. -/
  | executionRequest (client : N) (request : StateSyncRequest)
  deriving DecidableEq

inductive Event (N : Type) where
  | execution (message : ExecutionMessage)
  | message (peer : N) (message : StateSyncNetworkMessage)
  | tcpCompletion (ok : Bool)
  | timeout
  | clientTimeout
  deriving DecidableEq

inductive IpcPanic where
  /-- `live-mode execution shouldn't send SyncRequest` -/
  | syncRequest
  /-- `SyncUpsert with no pending_response` -/
  | upsertWithoutResponse
  /-- `syncdone received with no pending_response` -/
  | doneWithoutResponse
  /-- `assert_eq!(wip_response.response.request.prefix, done.prefix)` -/
  | prefixMismatch
  deriving DecidableEq

/-! ## The response in progress -/

namespace WipResponse

def new (client : N) (request : StateSyncRequest) (now : ℕ) (nonce : UInt64) : WipResponse N where
  client
  nextMessageSchedule := now + MESSAGE_SCHEDULE_DURATION
  completionTime := now
  responseSize := 0
  response :=
    { version := request.version, nonce, responseIndex := 0, request, response := [], responseN := 0 }
  unacknowledgedResponses := 0
  pendingResponseCompletions := some []

variable (w : WipResponse N)

/-- Neither the socket nor the client is to be waited for. -/
def canSend : Bool :=
  match w.pendingResponseCompletions with
  | none => true
  | some completions =>
    decide (completions.length < MAX_PENDING_RESPONSES) &&
      (decide (w.response.version < STATESYNC_VERSION_V2) ||
        decide (w.unacknowledgedResponses < MAX_UNACKNOWLEDGED_RESPONSES))

def hasSpace : Bool :=
  decide (w.responseSize < MAX_RESPONSE_SIZE) &&
    decide (w.response.response.length < MAX_UPSERTS_PER_RESPONSE)

def pushUpsert (upsertType : StateSyncUpsertType) (data : Bytes) : WipResponse N :=
  { w with
    responseSize := w.responseSize + data.length
    response := { w.response with response := w.response.response ++ [⟨upsertType, data⟩] } }

def nextBatch (now : ℕ) : WipResponse N :=
  { w with
    response := { w.response with response := [], responseIndex := w.response.responseIndex + 1 }
    responseSize := 0
    nextMessageSchedule := now + MESSAGE_SCHEDULE_DURATION }

def sendBatch (now : ℕ) : WipResponse N × List (Output N) :=
  match w.pendingResponseCompletions with
  | some completions =>
    ({ w.nextBatch now with
        unacknowledgedResponses := w.unacknowledgedResponses + 1
        pendingResponseCompletions := some (completions ++ [w.response.responseIndex]) },
      [.message w.client (.response w.response)])
  | none => (w.nextBatch now, [])

def maybeSendBatch (now : ℕ) : WipResponse N × List (Output N) :=
  if !w.hasSpace && w.canSend then w.sendBatch now else (w, [])

def tcpCompleted (ok : Bool) : WipResponse N :=
  { w with
    pendingResponseCompletions := if ok then w.pendingResponseCompletions.map List.tail else none }

/-- An acknowledgement counts if it is the client's, for this session. -/
def acknowledged (peer : N) (sessionId : UInt64) (now : ℕ) : WipResponse N :=
  { w with
    unacknowledgedResponses :=
      if w.client = peer ∧ w.response.nonce = sessionId then w.unacknowledgedResponses - 1
      else w.unacknowledgedResponses
    completionTime := now }

/-- What an event makes of the response in progress, if it does not end the session. -/
def handle (now : ℕ) : Event N → Option (WipResponse N × List (Output N))
  | .execution (.syncUpsert upsertType data) =>
    some ((w.pushUpsert upsertType data).maybeSendBatch now)
  | .message peer (.completion sessionId) =>
    some ((w.acknowledged peer sessionId now).maybeSendBatch now)
  | .tcpCompletion ok => some ((w.tcpCompleted ok).maybeSendBatch now)
  | .timeout => some (w.sendBatch now)
  | .clientTimeout => some ({ w with pendingResponseCompletions := none }, [])
  | _ => none

end WipResponse

/-! ## Events -/

namespace StreamState

def new (requestTimeout : ℕ) : StreamState N where
  requestTimeout
  pendingRequests := []
  wipResponse := none

variable (s : StreamState N)

/-- The first request that is not stale, and those after it. -/
def nextRequest (requestTimeout now : ℕ) :
    List (PendingRequest N) → Option (PendingRequest N × List (PendingRequest N))
  | [] => none
  | p :: ps =>
    if requestTimeout < now - p.rxTime then nextRequest requestTimeout now ps else some (p, ps)

def tryQueueResponse (now : ℕ) (nonce : UInt64) : StreamState N × List (Output N) :=
  match s.wipResponse with
  | some _ => (s, [])
  | none =>
    match nextRequest s.requestTimeout now s.pendingRequests with
    | none => ({ s with pendingRequests := [] }, [])
    | some (p, rest) =>
      ({ s with
          pendingRequests := rest
          wipResponse := some (.new p.client p.request now nonce) },
        [.executionRequest p.client p.request])

def setWip (r : WipResponse N × List (Output N)) : StreamState N × List (Output N) :=
  ({ s with wipResponse := some r.1 }, r.2)

/-- The final response, if everything before it could be sent. -/
def finalResponse (w : WipResponse N) (done : SyncDone) : List (Output N) :=
  if w.pendingResponseCompletions.isSome then
    [.message w.client (.response { w.response with responseN := done.n })]
  else []

def handleExecutionMessage (now : ℕ) (nonce : UInt64) :
    ExecutionMessage → Except IpcPanic (StreamState N × List (Output N))
  | .syncRequest => .error .syncRequest
  | .syncUpsert upsertType data =>
    match s.wipResponse with
    | none => .error .upsertWithoutResponse
    | some w => .ok (s.setWip ((w.pushUpsert upsertType data).maybeSendBatch now))
  | .syncDone done =>
    match s.wipResponse with
    | none => .error .doneWithoutResponse
    | some w =>
      let r := tryQueueResponse { s with wipResponse := none } now nonce
      if done.success then
        if w.response.request.prefixValue = done.prefixValue then
          .ok (r.1, finalResponse w done ++ r.2)
        else .error .prefixMismatch
      else .ok r

def handleTimeout (now : ℕ) : StreamState N × List (Output N) :=
  match s.wipResponse with
  | none => (s, [])
  | some w => s.setWip (w.sendBatch now)

def handleTcpCompletion (now : ℕ) (ok : Bool) : StreamState N × List (Output N) :=
  match s.wipResponse with
  | none => (s, [])
  | some w => s.setWip ((w.tcpCompleted ok).maybeSendBatch now)

def handleClientTimeout : StreamState N × List (Output N) :=
  match s.wipResponse with
  | none => (s, [])
  | some w => s.setWip ({ w with pendingResponseCompletions := none }, [])

def handleCompletion (now : ℕ) (peer : N) (sessionId : UInt64) : StreamState N × List (Output N) :=
  match s.wipResponse with
  | none => (s, [])
  | some w => s.setWip ((w.acknowledged peer sessionId now).maybeSendBatch now)

/-- A request replaces those of its client for another target, and itself. -/
def replaces (client : N) (request : StateSyncRequest) (p : PendingRequest N) : Bool :=
  decide (p.client = client) &&
    (decide (p.request.target ≠ request.target) || decide (p.request = request))

def badVersion : StateSyncBadVersion where
  minVersion := STATESYNC_VERSION_MIN
  maxVersion := SELF_STATESYNC_VERSION

def handleRequest (now : ℕ) (nonce : UInt64) (client : N) (request : StateSyncRequest) :
    StreamState N × List (Output N) :=
  if !request.version.isCompatible then (s, [.message client (.badVersion badVersion)])
  else
    let kept := s.pendingRequests.filter fun p => !replaces client request p
    if s.wipResponse.any (·.response.request = request) then
      ({ s with pendingRequests := kept }, [])
    else
      tryQueueResponse { s with pendingRequests := kept ++ [⟨client, now, request⟩] } now nonce

def handleMessage (now : ℕ) (nonce : UInt64) (peer : N) :
    StateSyncNetworkMessage → StreamState N × List (Output N)
  | .request request => s.handleRequest now nonce peer request
  | .completion sessionId => s.handleCompletion now peer sessionId
  | _ => (s, [])

def step (now : ℕ) (nonce : UInt64) : Event N → Except IpcPanic (StreamState N × List (Output N))
  | .execution message => s.handleExecutionMessage now nonce message
  | .message peer message => .ok (s.handleMessage now nonce peer message)
  | .tcpCompletion ok => .ok (s.handleTcpCompletion now ok)
  | .timeout => .ok (s.handleTimeout now)
  | .clientTimeout => .ok s.handleClientTimeout

/-- The events that `poll` waits for. -/
def enabled (now : ℕ) : Event N → Bool
  | .message _ _ => true
  | .execution _ => s.wipResponse.any (·.hasSpace)
  | .timeout => s.wipResponse.any fun w => w.canSend && decide (w.nextMessageSchedule ≤ now)
  | .clientTimeout => s.wipResponse.any fun w =>
      decide (0 < w.unacknowledgedResponses) && w.pendingResponseCompletions.isSome &&
        decide (STATESYNC_VERSION_V2 ≤ w.response.version) &&
        decide (w.completionTime + CLIENT_TIMEOUT ≤ now)
  | .tcpCompletion _ => s.wipResponse.any fun w =>
      w.pendingResponseCompletions.any fun completions => !completions.isEmpty

/-- The cases of a step: the response in progress is touched, or its session ends and the next one
may start, or a request arrives, or nothing happens. -/
inductive Handles (now : ℕ) (nonce : UInt64) : Event N → StreamState N × List (Output N) → Prop
  | wip {event : Event N} {w : WipResponse N} {r : WipResponse N × List (Output N)} :
      s.wipResponse = some w → w.handle now event = some r → Handles now nonce event (s.setWip r)
  | done {w : WipResponse N} {done : SyncDone} {final : List (Output N)} :
      s.wipResponse = some w → final = finalResponse w done ∨ final = [] →
      Handles now nonce (.execution (.syncDone done))
        ((tryQueueResponse { s with wipResponse := none } now nonce).1,
          final ++ (tryQueueResponse { s with wipResponse := none } now nonce).2)
  | request {client : N} {request : StateSyncRequest} :
      Handles now nonce (.message client (.request request))
        (s.handleRequest now nonce client request)
  | idle {event : Event N} : s.wipResponse = none → (∀ message, event ≠ .execution message) →
      Handles now nonce event (s, [])
  | ignored {peer : N} {message : StateSyncNetworkMessage} :
      (∀ sessionId, message ≠ .completion sessionId) →
      Handles now nonce (.message peer message) (s, [])

variable {s}

theorem handles_of_step {now : ℕ} {nonce : UInt64} {event : Event N}
    {r : StreamState N × List (Output N)} (hstep : s.step now nonce event = .ok r) :
    s.Handles now nonce event r := by
  -- The events that only touch a response in progress.
  have hwip : ∀ {event : Event N} (f : WipResponse N → WipResponse N × List (Output N)),
      (∀ w, w.handle now event = some (f w)) → (∀ message, event ≠ .execution message) →
      s.Handles now nonce event
        (match s.wipResponse with | none => (s, []) | some w => s.setWip (f w)) := by
    intro event f hf hevent
    split
    next hnone => exact .idle hnone hevent
    next w hw => exact .wip hw (hf w)
  cases event with
  | execution message =>
    unfold step handleExecutionMessage at hstep
    cases message with
    | syncRequest => cases hstep
    | syncUpsert upsertType data =>
      dsimp only at hstep
      split at hstep
      · cases hstep
      next w hw =>
        cases hstep
        exact .wip hw rfl
    | syncDone done =>
      dsimp only at hstep
      split at hstep
      · cases hstep
      next w hw =>
        split at hstep
        · split at hstep
          · cases hstep
            exact .done hw (.inl rfl)
          · cases hstep
        · cases hstep
          exact .done hw (.inr rfl)
  | message peer message =>
    cases hstep
    cases message with
    | request request => exact .request
    | completion sessionId => exact hwip _ (fun _ => rfl) nofun
    | response response => exact .ignored nofun
    | badVersion badVersion => exact .ignored nofun
    | notWhitelisted => exact .ignored nofun
  | tcpCompletion ok =>
    cases hstep
    exact hwip _ (fun _ => rfl) nofun
  | timeout =>
    cases hstep
    exact hwip _ (fun _ => rfl) nofun
  | clientTimeout =>
    cases hstep
    exact hwip _ (fun _ => rfl) nofun

/-! ## What is written -/

variable {now : ℕ} {nonce : UInt64} {peer client : N} {y : StateSyncResponse}

omit [DecidableEq N] in
theorem not_written_tryQueueResponse :
    .message peer (.response y) ∉ (s.tryQueueResponse now nonce).2 := by
  intro hy
  unfold tryQueueResponse at hy
  split at hy
  · cases hy
  · split at hy
    · cases hy
    · cases List.mem_singleton.mp hy

theorem not_written_handleRequest {request : StateSyncRequest} :
    .message peer (.response y) ∉ (s.handleRequest now nonce client request).2 := by
  intro hy
  unfold handleRequest at hy
  split at hy
  · cases List.mem_singleton.mp hy
  · dsimp only at hy
    split at hy
    · cases hy
    · exact not_written_tryQueueResponse hy

end StreamState

/-! ## Runs -/

structure Entry (N : Type) where
  now : ℕ
  nonce : UInt64
  event : Event N
  outputs : List (Output N)

/-- The events `log` lead from `s₀` to `s`. -/
inductive Serves (s₀ : StreamState N) : List (Entry N) → StreamState N → Prop
  | nil : Serves s₀ [] s₀
  | snoc {log : List (Entry N)} {s s' : StreamState N} {now : ℕ} {nonce : UInt64}
      {event : Event N} {outputs : List (Output N)} :
      Serves s₀ log s → s.enabled now event = true → s.step now nonce event = .ok (s', outputs) →
      Serves s₀ (log ++ [⟨now, nonce, event, outputs⟩]) s'

/-- Handle events one after the other, as long as they can occur. -/
def serve : List (ℕ × UInt64 × Event N) → List (Entry N) × StreamState N →
    Option (List (Entry N) × StreamState N)
  | [], state => some state
  | (now, nonce, event) :: events, (log, s) =>
    if s.enabled now event = true then
      match s.step now nonce event with
      | .ok (s', outputs) => serve events (log ++ [⟨now, nonce, event, outputs⟩], s')
      | .error _ => none
    else none

theorem Serves.serve {s₀ : StreamState N} {events : List (ℕ × UInt64 × Event N)}
    {state state' : List (Entry N) × StreamState N} (h : Serves s₀ state.1 state.2)
    (hserve : serve events state = some state') : Serves s₀ state'.1 state'.2 := by
  fun_induction Statesync.serve events state with
  | case1 =>
    cases hserve
    exact h
  | case2 _ _ _ _ _ _ henabled _ _ hstep ih => exact ih (.snoc h henabled hstep) hserve
  | case3 => cases hserve
  | case4 => cases hserve

/-! ## Sessions -/

/-- A request that was passed on to execution. -/
structure Served (N : Type) where
  client : N
  request : StateSyncRequest
  nonce : UInt64
  /-- The upserts that execution has produced for it. -/
  produced : List StateSyncUpsertV1
  /-- The responses that have been written, but for the final one. -/
  written : List StateSyncResponse
  final : Option StateSyncResponse
  /-- How many responses have been written to the socket, or were given up. -/
  completed : ℕ
  /-- How many acknowledgements the client has sent. -/
  acknowledged : ℕ
  deriving DecidableEq

namespace Served

def new (client : N) (request : StateSyncRequest) (nonce : UInt64) : Served N where
  client
  request
  nonce
  produced := []
  written := []
  final := none
  completed := 0
  acknowledged := 0

variable (x : Served N)

def receive : Event N → Served N
  | .execution (.syncUpsert upsertType data) =>
    { x with produced := x.produced ++ [⟨upsertType, data⟩] }
  | .tcpCompletion _ => { x with completed := x.completed + 1 }
  | .message peer (.completion sessionId) =>
    if x.client = peer ∧ x.nonce = sessionId then { x with acknowledged := x.acknowledged + 1 }
    else x
  | _ => x

/-- A response that is written when execution is done is the final one. -/
def write (response : StateSyncResponse) : Event N → Served N
  | .execution (.syncDone _) => { x with final := some response }
  | _ => { x with written := x.written ++ [response] }

def responses : List StateSyncResponse := x.written ++ x.final.toList

end Served

def noteEvent (event : Event N) : List (Served N) → List (Served N)
  | [] => []
  | x :: rest => x.receive event :: rest

def noteOutput (nonce : UInt64) (event : Event N) : List (Served N) → Output N → List (Served N)
  | sessions, .executionRequest client request => .new client request nonce :: sessions
  | x :: rest, .message _ (.response response) => x.write response event :: rest
  | sessions, _ => sessions

def record (sessions : List (Served N)) (entry : Entry N) : List (Served N) :=
  entry.outputs.foldl (noteOutput entry.nonce entry.event) (noteEvent entry.event sessions)

/-- What was served, the last request first. -/
def sessions (log : List (Entry N)) : List (Served N) := log.foldl record []

theorem sessions_snoc (log : List (Entry N)) (entry : Entry N) :
    sessions (log ++ [entry]) = record (sessions log) entry := by
  unfold sessions
  rw [List.foldl_append]
  rfl

end MonadBft.Statesync
