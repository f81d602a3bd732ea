import Mathlib.Data.List.MinMax
import Mathlib.Order.Lattice.Nat
import Mathlib.Order.WithBot
import MonadBft.Prog
import MonadBft.Statesync.Types

/-!
# The requests of a statesync client

`OutboundRequests` is what a node that syncs its execution state keeps of its requests. Queued
requests are pending until `poll` sends one to a peer; they are in flight until the last response
to them has been handed on, or until they time out. Responses that arrive out of order wait in the
entry of their request (`InFlightRequest.applyResponse`). The peer that has answered for a
prefix is asked again for it (`prefixPeers`).

The peers are those that a node trusts. A peer that does not serve requests, or none of a version
this node has, is removed for good. A peer of an older version is asked again in that version.

Hash maps are lists of pairs, ordered maps are kept in order, and instants are numbers. A call is
given the time, and the random choice among peers is a parameter (`Chooser`). `Call` are the calls
that are made, `step` is what they do, and `Run` are the sequences of calls in which messages come
from peers that are trusted at that moment.
-/

set_option linter.unusedSectionVars false

namespace MonadBft.Statesync

open Assoc Assoc List

variable {N : Type} [DecidableEq N]

/-! ## State -/

structure PeerInfo where
  version : StateSyncVersion
  /-- The last time a request to the peer timed out; `⊥` if none did. -/
  lastTimeout : WithBot ℕ
  deriving DecidableEq

def PeerInfo.default : PeerInfo where
  version := SELF_STATESYNC_VERSION
  lastTimeout := ⊥

structure InFlightRequest (N : Type) where
  peer : N
  lastActive : ℕ
  /-- Responses that came too early, by their index. -/
  responses : List (ℕ × StateSyncResponse)
  /-- The index of the next response to hand on. -/
  responseIndex : ℕ
  /-- How many responses with a nonce have been received. -/
  seenNonces : List (UInt64 × ℕ)
  deriving DecidableEq

structure OutboundRequests (N : Type) where
  peers : List (N × PeerInfo)
  prunedPeers : List N
  maxParallelRequests : ℕ
  requestTimeout : ℕ
  pendingRequests : List StateSyncRequest
  inFlightRequests : List (StateSyncRequest × InFlightRequest N)
  /-- The node that all further responses for a prefix must come from. -/
  prefixPeers : List (UInt64 × N)
  deriving DecidableEq

/-- The assertions, and the values that are taken to exist. -/
inductive OutboundPanic where
  /-- `assert_eq!(current_target, request.target)` -/
  | targetMismatch
  /-- `missing response` -/
  | missingResponse
  /-- `server sent duplicate response_index` -/
  | duplicateResponseIndex
  /-- `peers not empty` -/
  | peersNotEmpty
  /-- `peer not found` -/
  | peerNotFound
  deriving DecidableEq

/-- The random choice among peers. -/
structure Chooser (N : Type) where
  choose : List N → Option N
  mem_of_choose : ∀ {l x}, choose l = some x → x ∈ l
  eq_nil_of_choose : ∀ {l}, choose l = none → l = []

def Chooser.first : Chooser N where
  choose := head?
  mem_of_choose := mem_of_head?
  eq_nil_of_choose := head?_eq_none_iff.mp

/-! ## Responses to one request -/

def STATESYNC_CHUNKED_RESPONSE_TIMEOUT : ℕ := 5 * 60 * 10 ^ 9

namespace InFlightRequest

def new (peer : N) (now : ℕ) : InFlightRequest N where
  peer
  lastActive := now
  responses := []
  responseIndex := 0
  seenNonces := []

/-- How many responses with a nonce have been received. -/
def nonceCount (e : InFlightRequest N) (nonce : UInt64) : ℕ := (get? e.seenNonces nonce).getD 0

/-- The nonce of the responses that wait. -/
def existingNonce (e : InFlightRequest N) : Option UInt64 := e.responses.head?.map (·.2.nonce)

/-- The index after the run of keys that starts at `index`. -/
def skipConsecutive : ℕ → List ℕ → ℕ
  | index, [] => index
  | index, key :: keys => if key = index then skipConsecutive (index + 1) keys else index

/-- Take out the responses with the given indices. -/
def takeResponses : List ℕ → List (ℕ × StateSyncResponse) →
    Except OutboundPanic (List (ℕ × StateSyncResponse) × List StateSyncResponse)
  | [], responses => .ok (responses, [])
  | index :: indices, responses =>
    match get? responses index with
    | none => .error .missingResponse
    | some response => do
      let (rest, taken) ← takeResponses indices (Assoc.remove responses index)
      .ok (rest, response :: taken)

/-- The part of `apply_response` after the nonce has been checked. -/
def accept (e : InFlightRequest N) (now : ℕ) (response : StateSyncResponse) :
    Except OutboundPanic (InFlightRequest N × List StateSyncResponse) :=
  let index := response.responseIndex.toNat
  let e := { e with lastActive := now }
  if index < e.responseIndex then .ok (e, [])
  else if index = e.responseIndex then do
    let next := skipConsecutive (index + 1) (e.responses.map Prod.fst)
    let (rest, taken) ←
      takeResponses (range' (index + 1) (next - (index + 1))) e.responses
    .ok ({ e with responses := rest, responseIndex := next }, response :: taken)
  else if (get? e.responses index).isSome then .error .duplicateResponseIndex
  else .ok ({ e with responses := Assoc.insert e.responses index response }, [])

def countNonce (e : InFlightRequest N) (nonce : UInt64) : InFlightRequest N :=
  { e with seenNonces := Assoc.set e.seenNonces nonce (e.nonceCount nonce + 1) }

/-- The entry follows a nonce that has been silent for long, and another one shows up. -/
def resets (e : InFlightRequest N) (now : ℕ) (nonce : UInt64) : Bool :=
  decide (STATESYNC_CHUNKED_RESPONSE_TIMEOUT < now - e.lastActive) &&
    decide (e.nonceCount nonce = 0)

def applyResponse (e : InFlightRequest N) (now : ℕ) (response : StateSyncResponse) :
    Except OutboundPanic (InFlightRequest N × List StateSyncResponse) :=
  let counted := e.countNonce response.nonce
  if e.existingNonce.any (· ≠ response.nonce) then
    if e.resets now response.nonce then accept { counted with responses := [] } now response
    else .ok (counted, [])
  else accept counted now response

end InFlightRequest

/-! ## Calls -/

namespace OutboundRequests

/-- Peers start in the version of this node. -/
def addPeers (peers : List (N × PeerInfo)) (newPeers : List N) : List (N × PeerInfo) :=
  newPeers.foldl (fun peers peer => Assoc.set peers peer .default) peers

def new (maxParallelRequests requestTimeout : ℕ) (initPeers : List N) : OutboundRequests N where
  peers := addPeers [] initPeers
  prunedPeers := []
  maxParallelRequests
  requestTimeout
  pendingRequests := []
  inFlightRequests := []
  prefixPeers := []

variable (o : OutboundRequests N)

def isEmpty : Bool := o.pendingRequests.isEmpty && o.inFlightRequests.isEmpty

def isTrustedPeer (peer : N) : Bool := (get? o.peers peer).isSome

def clearPrefixPeers : OutboundRequests N := { o with prefixPeers := [] }

/-- Insert into the ordered set of pending requests. -/
def insertPending (request : StateSyncRequest) : OutboundRequests N :=
  { o with pendingRequests :=
      if request ∈ o.pendingRequests then o.pendingRequests
      else o.pendingRequests.orderedInsert StateSyncRequest.Before request }

def queueRequest (request : StateSyncRequest) : Except OutboundPanic (OutboundRequests N) :=
  match o.pendingRequests.head?.or (o.inFlightRequests.map Prod.fst).head? with
  | none => .ok (o.insertPending request)
  | some current =>
    if current.target = request.target then .ok (o.insertPending request)
    else .error .targetMismatch

/-- The responses that a response allows to hand on. -/
def handleResponse (now : ℕ) (peer : N) (response : StateSyncResponse) :
    Except OutboundPanic (OutboundRequests N × List StateSyncResponse) :=
  if (get? o.prefixPeers response.request.prefixValue).any (· ≠ peer) then .ok (o, [])
  else
    let o := { o with prefixPeers := Assoc.set o.prefixPeers response.request.prefixValue peer }
    match get? o.inFlightRequests response.request with
    | none => .ok (o, [])
    | some e => do
      let (e, responses) ← e.applyResponse now response
      if responses.getLast?.any (·.responseN ≠ 0) then
        .ok ({ o with inFlightRequests := Assoc.remove o.inFlightRequests response.request },
          responses)
      else
        .ok ({ o with inFlightRequests :=
          Assoc.insertBy StateSyncRequest.Before o.inFlightRequests response.request e }, responses)

/-- Make requests in flight pending again. -/
def requeue : List StateSyncRequest → OutboundRequests N → OutboundRequests N
  | [], o => o
  | request :: requests, o =>
    requeue requests
      (insertPending { o with inFlightRequests := Assoc.remove o.inFlightRequests request } request)

def prunePeer (peer : N) : OutboundRequests N :=
  { o with peers := Assoc.remove o.peers peer, prunedPeers := o.prunedPeers.insert peer }

/-- The versions a peer has are all too old, or all too new. -/
def incompatible (badVersion : StateSyncBadVersion) : Bool :=
  decide (badVersion.maxVersion < STATESYNC_VERSION_MIN) ||
    decide (SELF_STATESYNC_VERSION < badVersion.minVersion)

def handleBadVersion (peer : N) (badVersion : StateSyncBadVersion) : OutboundRequests N :=
  let info := { PeerInfo.default with version := badVersion.maxVersion }
  let o :=
    if incompatible badVersion then o.prunePeer peer
    else { o with peers := Assoc.set o.peers peer info }
  requeue ((o.inFlightRequests.filter fun e =>
    decide (e.2.peer = peer) && decide (badVersion.maxVersion < e.1.version)).map Prod.fst) o

def handleNotWhitelisted (peer : N) : OutboundRequests N :=
  let o := o.prunePeer peer
  requeue ((o.inFlightRequests.filter fun e => decide (e.2.peer = peer)).map Prod.fst) o

def expandUpstreamPeers (newPeers : List N) : OutboundRequests N :=
  let newPeers := newPeers.filter fun peer =>
    !(get? o.peers peer).isSome && !decide (peer ∈ o.prunedPeers)
  { o with peers := addPeers o.peers newPeers }

def choosePeer (rng : Chooser N) (prefixValue : UInt64) : Except OutboundPanic (Option N) :=
  match get? o.prefixPeers prefixValue with
  | some peer => .ok (some peer)
  | none =>
    if o.peers.isEmpty then .ok none
    else
      match (o.peers.map (·.2.lastTimeout)).min? with
      | none => .error .peersNotEmpty
      | some oldest =>
        match rng.choose ((o.peers.filter fun e => decide (e.2.lastTimeout ≤ oldest)).map Prod.fst)
        with
        | none => .error .peersNotEmpty
        | some peer => .ok (some peer)

end OutboundRequests

inductive RequestPollResult (N : Type) where
  | request (peer : N) (request : StateSyncRequest)
  | timer (deadline : Option ℕ)
  deriving DecidableEq

namespace OutboundRequests

variable (o : OutboundRequests N)

/-- Select a peer and send the request in the version of that peer. -/
def insertRequest (rng : Chooser N) (now : ℕ) (toSend : StateSyncRequest) :
    Except OutboundPanic (OutboundRequests N × RequestPollResult N) := do
  match ← o.choosePeer rng toSend.prefixValue with
  | none => .ok (o.insertPending toSend, .timer none)
  | some peer =>
    match get? o.peers peer with
    | none => .error .peerNotFound
    | some info =>
      let toSend := { toSend with version := info.version }
      .ok ({ o with inFlightRequests :=
          Assoc.insertBy StateSyncRequest.Before o.inFlightRequests toSend (.new peer now) },
        .request peer toSend)

/-- The request that has been inactive for longest, the first of them. -/
def oldestRequest : List (StateSyncRequest × InFlightRequest N) →
    Option (StateSyncRequest × InFlightRequest N)
  | [] => none
  | e :: l =>
    match oldestRequest l with
    | none => some e
    | some e' => if e.2.lastActive ≤ e'.2.lastActive then some e else some e'

/-- Remember that a request to a peer timed out. -/
def noteTimeout (peer : N) (now : ℕ) : OutboundRequests N :=
  match get? o.peers peer with
  | none => o
  | some info => { o with peers := Assoc.set o.peers peer { info with lastTimeout := (now : ℕ) } }

def poll (rng : Chooser N) (now : ℕ) :
    Except OutboundPanic (OutboundRequests N × RequestPollResult N) :=
  match o.pendingRequests, decide (o.inFlightRequests.length < o.maxParallelRequests) with
  | toSend :: pending, true =>
    insertRequest { o with pendingRequests := pending } rng now toSend
  | _, _ =>
    match oldestRequest o.inFlightRequests with
    | none => .ok (o, .timer none)
    | some (request, e) =>
      if now - e.lastActive < o.requestTimeout then
        .ok (o, .timer (some (e.lastActive + o.requestTimeout)))
      else
        let o := o.noteTimeout e.peer now
        insertRequest { o with inFlightRequests := Assoc.remove o.inFlightRequests request } rng now
          request

end OutboundRequests

/-! ## Runs -/

inductive Call (N : Type) where
  | queueRequest (request : StateSyncRequest)
  | poll (rng : Chooser N) (now : ℕ)
  | handleResponse (now : ℕ) (peer : N) (response : StateSyncResponse)
  | handleBadVersion (peer : N) (badVersion : StateSyncBadVersion)
  | handleNotWhitelisted (peer : N)
  | expandUpstreamPeers (newPeers : List N)
  | clearPrefixPeers
  /-- The target is reached, and another one may be next. -/
  | doneSync

/-- What a call returns. -/
inductive Answer (N : Type) where
  | none
  | polled (result : RequestPollResult N)
  | handedOn (responses : List StateSyncResponse)
  deriving DecidableEq

namespace OutboundRequests

def step (o : OutboundRequests N) : Call N → Except OutboundPanic (OutboundRequests N × Answer N)
  | .queueRequest request => (·, .none) <$> o.queueRequest request
  | .poll rng now => (fun r => (r.1, .polled r.2)) <$> o.poll rng now
  | .handleResponse now peer response =>
    (fun r => (r.1, .handedOn r.2)) <$> o.handleResponse now peer response
  | .handleBadVersion peer badVersion => .ok (o.handleBadVersion peer badVersion, .none)
  | .handleNotWhitelisted peer => .ok (o.handleNotWhitelisted peer, .none)
  | .expandUpstreamPeers newPeers => .ok (o.expandUpstreamPeers newPeers, .none)
  | .clearPrefixPeers => .ok (o.clearPrefixPeers, .none)
  | .doneSync => .ok (o.clearPrefixPeers, .none)

/-- Messages are handled if their sender is trusted. -/
def fromTrusted (o : OutboundRequests N) : Call N → Bool
  | .handleResponse _ peer _ => o.isTrustedPeer peer
  | .handleBadVersion peer _ => o.isTrustedPeer peer
  | .handleNotWhitelisted peer => o.isTrustedPeer peer
  | _ => true

end OutboundRequests

/-- The calls made so far, with their answers. -/
abbrev Log (N : Type) := List (Call N × Answer N)

/-- The calls `log` lead from `o₀` to `o`, and each of them was allowed by `C`. -/
inductive Run (C : Log N → OutboundRequests N → Call N → Prop) (o₀ : OutboundRequests N) :
    Log N → OutboundRequests N → Prop
  | nil : Run C o₀ [] o₀
  | snoc {log : Log N} {o o' : OutboundRequests N} {call : Call N} {answer : Answer N} :
      Run C o₀ log o → o.fromTrusted call = true → C log o call →
      o.step call = .ok (o', answer) → Run C o₀ (log ++ [(call, answer)]) o'

/-- Make calls one after the other, as long as they are allowed and do not panic. -/
def follow (C : Log N → OutboundRequests N → Call N → Prop)
    [∀ log (o : OutboundRequests N) call, Decidable (C log o call)] :
    List (Call N) → Log N × OutboundRequests N → Option (Log N × OutboundRequests N)
  | [], state => some state
  | call :: calls, (log, o) =>
    if o.fromTrusted call = true ∧ C log o call then
      match o.step call with
      | .ok (o', answer) => follow C calls (log ++ [(call, answer)], o')
      | .error _ => none
    else none

variable {C : Log N → OutboundRequests N → Call N → Prop}

theorem Run.follow [∀ log (o : OutboundRequests N) call, Decidable (C log o call)]
    {o₀ : OutboundRequests N} {calls : List (Call N)} {state state' : Log N × OutboundRequests N}
    (h : Run C o₀ state.1 state.2) (hfollow : follow C calls state = some state') :
    Run C o₀ state'.1 state'.2 := by
  fun_induction Statesync.follow C calls state with
  | case1 =>
    cases hfollow
    exact h
  | case2 _ _ _ _ hcall _ _ hstep ih => exact ih (.snoc h hcall.1 hcall.2 hstep) hfollow
  | case3 => cases hfollow
  | case4 => cases hfollow

namespace Ideal

/-- A response without upserts. -/
def answer (request : StateSyncRequest) (nonce : UInt64) (responseIndex : UInt32)
    (responseN : UInt64) : StateSyncResponse where
  version := SELF_STATESYNC_VERSION
  nonce
  responseIndex
  request
  response := []
  responseN

end Ideal

/-! ## What one response does -/

namespace InFlightRequest

variable {e e' : InFlightRequest N} {request : StateSyncRequest} {response : StateSyncResponse}
  {responses handed : List StateSyncResponse} {now : ℕ}

/-- What waits in the entry of a request: responses to it, with one nonce, in the order of their
indices, all of them above the index that is next. -/
structure Waits (request : StateSyncRequest) (e : InFlightRequest N) : Prop where
  ordered : e.responses.Pairwise fun a b => a.1 < b.1
  index : ∀ a ∈ e.responses, a.2.responseIndex.toNat = a.1
  above : ∀ a ∈ e.responses, e.responseIndex < a.1
  request_eq : ∀ a ∈ e.responses, a.2.request = request
  nonce : ∀ a ∈ e.responses, e.existingNonce = some a.2.nonce

theorem waits_new (request : StateSyncRequest) (peer : N) (now : ℕ) :
    (new peer now).Waits request :=
  ⟨.nil, by simp [new], by simp [new], by simp [new], by simp [new]⟩

/-- What is taken out are the responses that follow on each other from `index` on. -/
theorem takeResponses_skipConsecutive {l : List (ℕ × StateSyncResponse)} {index : ℕ}
    (hl : l.Pairwise fun a b => a.1 < b.1) (hindex : ∀ a ∈ l, index ≤ a.1) :
    ∃ run rest, l = run ++ rest ∧ run.map Prod.fst = range' index run.length ∧
      skipConsecutive index (l.map Prod.fst) = index + run.length ∧
      (∀ a ∈ rest, index + run.length < a.1) ∧
      takeResponses (range' index run.length) l = .ok (rest, run.map Prod.snd) := by
  induction l generalizing index with
  | nil => exact ⟨[], [], rfl, rfl, rfl, by simp, rfl⟩
  | cons a l ih =>
    obtain ⟨hlt, hl⟩ := pairwise_cons.mp hl
    by_cases ha : a.1 = index
    · have hnext : ∀ b ∈ l, index + 1 ≤ b.1 := fun b hb => by have := hlt b hb; omega
      obtain ⟨run, rest, rfl, hrun, hskip, hrest, htake⟩ := ih hl hnext
      refine ⟨a :: run, rest, rfl, ?_, ?_, ?_, ?_⟩
      · rw [map_cons, hrun, length_cons, range'_succ, ha]
      · rw [map_cons, skipConsecutive, if_pos ha, hskip, length_cons]
        omega
      · intro b hb
        have := hrest b hb
        rw [length_cons]
        omega
      · have hremove : Assoc.remove (a :: (run ++ rest)) index = run ++ rest := by
          unfold Assoc.remove
          rw [filter_cons_of_neg (by simpa using ha)]
          refine filter_eq_self.mpr fun b hb => ?_
          have := hlt b hb
          simp only [decide_eq_true_iff]
          omega
        have hget : get? (a :: (run ++ rest)) index = some a.2 := by
          simp [get?, ha]
        rw [length_cons, range'_succ, takeResponses, hget]
        rw [hremove, htake]
        rfl
    · refine ⟨[], a :: l, rfl, rfl, ?_, ?_, rfl⟩
      · rw [map_cons, skipConsecutive, if_neg ha]
        rfl
      have hge := hindex a (by simp)
      intro b hb
      rcases mem_cons.mp hb with rfl | hb
      · simp only [length_nil]
        omega
      · have := hlt b hb
        simp only [length_nil]
        omega

theorem accept_of_lt (h : response.responseIndex.toNat < e.responseIndex) :
    e.accept now response = .ok ({ e with lastActive := now }, []) := by
  exact if_pos h

/-- A response with the index that is next is handed on, with those that follow on it. -/
theorem accept_of_eq (hw : e.Waits request) (now : ℕ)
    (h : response.responseIndex.toNat = e.responseIndex) :
    ∃ run rest, e.responses = run ++ rest ∧
      run.map Prod.fst = range' (e.responseIndex + 1) run.length ∧
      (∀ a ∈ rest, e.responseIndex + 1 + run.length < a.1) ∧
      e.accept now response = .ok ({ e with
        lastActive := now, responses := rest, responseIndex := e.responseIndex + 1 + run.length },
        response :: run.map Prod.snd) := by
  obtain ⟨run, rest, hsplit, hrun, hskip, hrest, htake⟩ :=
    takeResponses_skipConsecutive hw.ordered fun a ha => Nat.succ_le_of_lt (hw.above a ha)
  refine ⟨run, rest, hsplit, hrun, hrest, ?_⟩
  unfold accept
  dsimp only
  rw [h, if_neg (lt_irrefl _), if_pos rfl, hskip, Nat.add_sub_cancel_left, htake]
  rfl

theorem accept_of_gt (h : e.responseIndex < response.responseIndex.toNat)
    (hnew : get? e.responses response.responseIndex.toNat = none) :
    e.accept now response = .ok ({ e with
      lastActive := now
      responses := Assoc.insert e.responses response.responseIndex.toNat response }, []) := by
  unfold accept
  dsimp only
  rw [if_neg (by omega), if_neg (by omega), hnew]
  rfl

theorem accept_duplicate (h : e.responseIndex < response.responseIndex.toNat)
    (hdup : (get? e.responses response.responseIndex.toNat).isSome) :
    e.accept now response = .error .duplicateResponseIndex := by
  unfold accept
  dsimp only
  rw [if_neg (by omega), if_neg (by omega), if_pos hdup]

/-- What an accepted response does: it comes too late, or is handed on with those that follow on
it, or waits. -/
theorem accept_cases (hw : e.Waits request) (h : e.accept now response = .ok (e', handed)) :
    (response.responseIndex.toNat < e.responseIndex ∧ e' = { e with lastActive := now } ∧
      handed = []) ∨
    (response.responseIndex.toNat = e.responseIndex ∧ ∃ run rest, e.responses = run ++ rest ∧
      run.map Prod.fst = range' (e.responseIndex + 1) run.length ∧
      (∀ a ∈ rest, e.responseIndex + 1 + run.length < a.1) ∧
      handed = response :: run.map Prod.snd ∧
      e' = { e with
        lastActive := now, responses := rest
        responseIndex := e.responseIndex + 1 + run.length }) ∨
    (e.responseIndex < response.responseIndex.toNat ∧ handed = [] ∧
      e' = { e with
        lastActive := now
        responses := Assoc.insert e.responses response.responseIndex.toNat response }) := by
  rcases Nat.lt_trichotomy response.responseIndex.toNat e.responseIndex with hlt | heq | hgt
  · rw [accept_of_lt hlt] at h
    cases h
    exact .inl ⟨hlt, rfl, rfl⟩
  · obtain ⟨run, rest, hsplit, hrun, hrest, hacc⟩ := accept_of_eq hw now heq
    rw [hacc] at h
    cases h
    exact .inr (.inl ⟨heq, run, rest, hsplit, hrun, hrest, rfl, rfl⟩)
  · cases hget : get? e.responses response.responseIndex.toNat with
    | none =>
      rw [accept_of_gt hgt hget] at h
      cases h
      exact .inr (.inr ⟨hgt, rfl, rfl⟩)
    | some y =>
      rw [accept_duplicate hgt (by rw [hget]; rfl)] at h
      cases h

theorem waits_accept (hw : e.Waits request) (hrequest : response.request = request)
    (hnonce : ∀ a ∈ e.responses, a.2.nonce = response.nonce)
    (h : e.accept now response = .ok (e', handed)) : e'.Waits request := by
  have same : ∀ {e : InFlightRequest N}, (∀ a ∈ e.responses, a.2.nonce = response.nonce) →
      ∀ a ∈ e.responses, e.existingNonce = some a.2.nonce := by
    intro e hall a ha
    unfold existingNonce
    cases hl : e.responses with
    | nil =>
      rw [hl] at ha
      cases ha
    | cons b l =>
      have hb : b ∈ e.responses := by simp [hl]
      simp [hall a ha, hall b hb]
  rcases accept_cases hw h with ⟨-, rfl, -⟩ | ⟨-, run, rest, hsplit, -, hrest, -, rfl⟩ |
    ⟨hgt, -, rfl⟩
  · exact { hw with }
  · have hsub : ∀ a ∈ rest, a ∈ e.responses := fun a ha => by simp [hsplit, ha]
    refine ⟨?_, fun a ha => hw.index a (hsub a ha), hrest, fun a ha => hw.request_eq a (hsub a ha),
      same fun a ha => hnonce a (hsub a ha)⟩
    have := hw.ordered
    rw [hsplit] at this
    exact (pairwise_append.mp this).2.1
  · refine ⟨pairwise_insert hw.ordered, ?_, ?_, ?_, same ?_⟩
    all_goals intro a ha
    all_goals rcases mem_insert.mp ha with rfl | ⟨ha, -⟩
    · rfl
    · exact hw.index a ha
    · exact hgt
    · exact hw.above a ha
    · exact hrequest
    · exact hw.request_eq a ha
    · rfl
    · exact hnonce a ha

/-- The entry that a response is accepted into: as it was, or with what waited thrown away. -/
structure Base (request : StateSyncRequest) (e : InFlightRequest N) (nonce : UInt64)
    (base : InFlightRequest N) : Prop where
  waits : base.Waits request
  peer : base.peer = e.peer
  responseIndex : base.responseIndex = e.responseIndex
  responses : ∀ a ∈ base.responses, a ∈ e.responses
  nonce : ∀ a ∈ base.responses, a.2.nonce = nonce

theorem base_countNonce (hw : e.Waits request) {nonce : UInt64}
    (h : e.existingNonce.any (· ≠ nonce) = false) : Base request e nonce (e.countNonce nonce) where
  waits := { hw with }
  peer := rfl
  responseIndex := rfl
  responses _ ha := ha
  nonce a ha := by
    rw [hw.nonce a ha] at h
    simpa using h

theorem base_cleared (request : StateSyncRequest) (e : InFlightRequest N) (nonce : UInt64) :
    Base request e nonce { e.countNonce nonce with responses := [] } where
  waits := ⟨.nil, by simp, by simp, by simp, by simp⟩
  peer := rfl
  responseIndex := rfl
  responses := by simp
  nonce := by simp

/-- A response is dropped because of its nonce, or it is accepted. -/
theorem applyResponse_cases (hw : e.Waits request) (now : ℕ) (response : StateSyncResponse) :
    (e.existingNonce.any (· ≠ response.nonce) = true ∧ e.resets now response.nonce = false ∧
      e.applyResponse now response = .ok (e.countNonce response.nonce, [])) ∨
    ∃ base, Base request e response.nonce base ∧
      (e.existingNonce.any (· ≠ response.nonce) = false ∧ base = e.countNonce response.nonce ∨
        e.existingNonce.any (· ≠ response.nonce) = true ∧
          e.resets now response.nonce = true ∧ base.responses = []) ∧
      e.applyResponse now response = base.accept now response := by
  unfold applyResponse
  cases hany : e.existingNonce.any (· ≠ response.nonce) with
  | false => exact .inr ⟨_, base_countNonce hw hany, .inl ⟨rfl, rfl⟩, rfl⟩
  | true =>
    cases hreset : e.resets now response.nonce with
    | false => exact .inl ⟨rfl, rfl, rfl⟩
    | true => exact .inr ⟨_, base_cleared request e response.nonce, .inr ⟨rfl, rfl, rfl⟩, rfl⟩

theorem accept_peer (hw : e.Waits request) (h : e.accept now response = .ok (e', handed)) :
    e'.peer = e.peer := by
  rcases accept_cases hw h with ⟨-, rfl, -⟩ | ⟨-, -, -, -, -, -, -, rfl⟩ | ⟨-, -, rfl⟩
  · rfl
  · rfl
  · rfl

theorem waits_applyResponse (hw : e.Waits request) (hrequest : response.request = request)
    (h : e.applyResponse now response = .ok (e', handed)) :
    e'.Waits request ∧ e'.peer = e.peer := by
  rcases applyResponse_cases hw now response with ⟨-, -, hdrop⟩ | ⟨base, hbase, -, hacc⟩
  · rw [hdrop] at h
    cases h
    exact ⟨{ hw with }, rfl⟩
  · rw [hacc] at h
    exact ⟨waits_accept hbase.waits hrequest hbase.nonce h,
      (accept_peer hbase.waits h).trans hbase.peer⟩

end InFlightRequest

/-! ## What one call does -/

namespace OutboundRequests

variable {o o' : OutboundRequests N} {request : StateSyncRequest} {response : StateSyncResponse}
  {peer : N} {now : ℕ} {rng : Chooser N} {result : RequestPollResult N}
  {handed : List StateSyncResponse} {answer : Answer N}

/-- A request is in flight once, and no more requests are in flight than there may be. -/
structure Keyed (o : OutboundRequests N) : Prop where
  max_pos : 0 < o.maxParallelRequests
  nodup : (o.inFlightRequests.map Prod.fst).Nodup
  bounded : o.inFlightRequests.length ≤ o.maxParallelRequests

structure Inv (o : OutboundRequests N) : Prop extends Keyed o where
  waits : ∀ {request e}, get? o.inFlightRequests request = some e → e.Waits request

theorem mem_insertPending {r : StateSyncRequest} :
    r ∈ (o.insertPending request).pendingRequests ↔ r = request ∨ r ∈ o.pendingRequests := by
  unfold insertPending
  split
  next hmem => exact ⟨.inr, fun h => h.elim (fun heq => heq ▸ hmem) id⟩
  · exact mem_orderedInsert _

/-- Requests in flight that are made pending again are moved, and nothing else changes. -/
structure Requeued (rs : List StateSyncRequest) (o o' : OutboundRequests N) : Prop where
  peers : o'.peers = o.peers
  max : o'.maxParallelRequests = o.maxParallelRequests
  prefixPeers : o'.prefixPeers = o.prefixPeers
  pending : ∀ r, r ∈ o'.pendingRequests ↔ r ∈ rs ∨ r ∈ o.pendingRequests
  inFlight : o'.inFlightRequests = o.inFlightRequests.filter fun e => decide (e.1 ∉ rs)

theorem requeue_spec (rs : List StateSyncRequest) (o : OutboundRequests N) :
    Requeued rs o (requeue rs o) := by
  induction rs generalizing o with
  | nil => exact ⟨rfl, rfl, rfl, by simp [requeue], by simp [requeue]⟩
  | cons r rs ih =>
    have h := ih (insertPending { o with inFlightRequests := Assoc.remove o.inFlightRequests r } r)
    refine ⟨h.peers, h.max, h.prefixPeers, fun r' => ?_, ?_⟩
    · rw [requeue, h.pending, mem_insertPending, mem_cons]
      tauto
    rw [requeue, h.inFlight]
    change (Assoc.remove o.inFlightRequests r).filter _ = _
    unfold Assoc.remove
    rw [filter_filter]
    refine filter_congr fun e _ => ?_
    rw [← Bool.decide_and]
    refine decide_eq_decide.mpr ?_
    rw [mem_cons]
    tauto

variable {rs : List StateSyncRequest} {l : List (StateSyncRequest × InFlightRequest N)}
  {peers : List (N × PeerInfo)} {call : Call N}

theorem Requeued.get?_inFlight (h : Requeued rs o o') {e : InFlightRequest N}
    (he : get? o'.inFlightRequests request = some e)
    (hnodup : (o.inFlightRequests.map Prod.fst).Nodup) :
    request ∉ rs ∧ get? o.inFlightRequests request = some e := by
  have hmem := mem_of_get? he
  rw [h.inFlight] at hmem
  obtain ⟨hmem, hnot⟩ := mem_filter.mp hmem
  exact ⟨of_decide_eq_true hnot, get?_of_mem hnodup hmem⟩

theorem Keyed.requeued (h : o.Keyed) (hr : Requeued rs o o') : o'.Keyed where
  max_pos := hr.max ▸ h.max_pos
  nodup := by
    rw [hr.inFlight]
    exact h.nodup.sublist (filter_sublist.map _)
  bounded := by
    rw [hr.inFlight, hr.max]
    exact (length_filter_le _ _).trans h.bounded

/-! ### The choice of a peer -/

theorem choosePeer_cases (o : OutboundRequests N) (rng : Chooser N) (prefixValue : UInt64) :
    (∃ peer, get? o.prefixPeers prefixValue = some peer ∧
      o.choosePeer rng prefixValue = .ok (some peer)) ∨
    (get? o.prefixPeers prefixValue = none ∧ o.peers = [] ∧
      o.choosePeer rng prefixValue = .ok none) ∨
    ∃ peer info, (peer, info) ∈ o.peers ∧ o.choosePeer rng prefixValue = .ok (some peer) := by
  unfold choosePeer
  cases get? o.prefixPeers prefixValue with
  | some peer => exact .inl ⟨peer, rfl, rfl⟩
  | none =>
    by_cases hempty : o.peers = []
    · exact .inr (.inl ⟨rfl, hempty, by simp [hempty]⟩)
    right
    right
    rw [if_neg (by simpa using hempty)]
    cases hmin : (o.peers.map (·.2.lastTimeout)).min? with
    | none =>
      rw [min?_eq_none_iff, map_eq_nil_iff] at hmin
      exact absurd hmin hempty
    | some oldest =>
      obtain ⟨e, he, hold⟩ := mem_map.mp (min?_mem hmin)
      dsimp only
      cases hchoose : rng.choose
        ((o.peers.filter fun e => decide (e.2.lastTimeout ≤ oldest)).map Prod.fst) with
      | none =>
        have hnil := rng.eq_nil_of_choose hchoose
        rw [map_eq_nil_iff, filter_eq_nil_iff] at hnil
        exact absurd (decide_eq_true hold.le) (hnil e he)
      | some peer =>
        obtain ⟨e', he', rfl⟩ := mem_map.mp (rng.mem_of_choose hchoose)
        exact ⟨e'.1, e'.2, (mem_filter.mp he').1, rfl⟩

/-- The version of a request is that of the peer it is sent to. -/
def withVersion (request : StateSyncRequest) (info : PeerInfo) : StateSyncRequest :=
  { request with version := info.version }

/-- A request is sent to a peer, or waits because there is none. Nothing else stops it but a
peer of its prefix that is gone. -/
theorem insertRequest_cases (o : OutboundRequests N) (rng : Chooser N) (now : ℕ)
    (request : StateSyncRequest) :
    (get? o.prefixPeers request.prefixValue = none ∧ o.peers = [] ∧
      o.insertRequest rng now request = .ok (o.insertPending request, .timer none)) ∨
    (∃ peer info, get? o.peers peer = some info ∧
      o.insertRequest rng now request = .ok ({ o with
        inFlightRequests := insertBy StateSyncRequest.Before o.inFlightRequests
          (withVersion request info) (.new peer now) },
        .request peer (withVersion request info))) ∨
    ∃ peer, get? o.prefixPeers request.prefixValue = some peer ∧ get? o.peers peer = none ∧
      o.insertRequest rng now request = .error .peerNotFound := by
  unfold insertRequest
  rcases choosePeer_cases o rng request.prefixValue with
    ⟨peer, hpeer, hchoose⟩ | ⟨hfixed, hpeers, hchoose⟩ | ⟨peer, info, hmem, hchoose⟩
  · rw [hchoose]
    cases hget : get? o.peers peer with
    | none => exact .inr (.inr ⟨peer, hpeer, hget, by simp [hget, bind, Except.bind]⟩)
    | some info =>
      exact .inr (.inl ⟨peer, info, hget, by simp [hget, bind, Except.bind, withVersion]⟩)
  · rw [hchoose]
    exact .inl ⟨hfixed, hpeers, rfl⟩
  · rw [hchoose]
    obtain ⟨info', hget⟩ := exists_get?_of_mem_keys (mem_map.mpr ⟨_, hmem, rfl⟩)
    exact .inr (.inl ⟨peer, info', hget, by simp [hget, bind, Except.bind, withVersion]⟩)

/-- A request that can be taken waits, or is sent. -/
theorem insertRequest_eq_ok (h : o.insertRequest rng now request = .ok (o', result)) :
    (o.peers = [] ∧ o' = o.insertPending request ∧ result = .timer none) ∨
    ∃ peer info, get? o.peers peer = some info ∧ o' = { o with
        inFlightRequests := insertBy StateSyncRequest.Before o.inFlightRequests
          (withVersion request info) (.new peer now) } ∧
      result = .request peer (withVersion request info) := by
  rcases insertRequest_cases o rng now request with
    ⟨-, hpeers, heq⟩ | ⟨peer, info, hinfo, heq⟩ | ⟨peer, -, -, heq⟩
  · cases heq.symm.trans h
    exact .inl ⟨hpeers, rfl, rfl⟩
  · cases heq.symm.trans h
    exact .inr ⟨peer, info, hinfo, rfl, rfl⟩
  · cases heq.symm.trans h

/-! ### Polling -/

theorem oldestRequest_mem {e : StateSyncRequest × InFlightRequest N}
    (h : oldestRequest l = some e) : e ∈ l := by
  fun_induction oldestRequest l with
  | case1 => cases h
  | case2 =>
    cases h
    simp
  | case3 =>
    cases h
    simp
  | case4 _ _ _ he' _ ih =>
    cases h
    exact mem_cons_of_mem _ (ih he')

theorem oldestRequest_eq_none (h : oldestRequest l = none) : l = [] := by
  cases l with
  | nil => rfl
  | cons a l =>
    unfold oldestRequest at h
    split at h
    · cases h
    · split at h <;> cases h

/-- A poll sends a pending request, or waits for the request that times out next, or sends that
one again. -/
theorem poll_cases (o : OutboundRequests N) (rng : Chooser N) (now : ℕ) :
    (∃ toSend pending, o.pendingRequests = toSend :: pending ∧
      o.inFlightRequests.length < o.maxParallelRequests ∧
      o.poll rng now = insertRequest { o with pendingRequests := pending } rng now toSend) ∨
    (∃ deadline, o.poll rng now = .ok (o, .timer deadline) ∧
      (deadline = none → o.inFlightRequests = [] ∧
        (o.pendingRequests = [] ∨ o.maxParallelRequests ≤ o.inFlightRequests.length))) ∨
    ∃ request e, (request, e) ∈ o.inFlightRequests ∧
      o.poll rng now = insertRequest { o.noteTimeout e.peer now with
        inFlightRequests := Assoc.remove (o.noteTimeout e.peer now).inFlightRequests request }
        rng now request := by
  unfold poll
  split
  next toSend pending hpending hlen =>
    exact .inl ⟨toSend, pending, hpending, of_decide_eq_true hlen, rfl⟩
  next hidle =>
    refine .inr ?_
    split
    next hoe =>
      refine .inl ⟨none, rfl, fun _ => ⟨oldestRequest_eq_none hoe, ?_⟩⟩
      cases hpending : o.pendingRequests with
      | nil => exact .inl rfl
      | cons toSend pending =>
        exact .inr (not_lt.mp fun hlen => hidle toSend pending hpending (decide_eq_true hlen))
    next request e hoe =>
      split
      · exact .inl ⟨_, rfl, nofun⟩
      · exact .inr ⟨request, e, oldestRequest_mem hoe, rfl⟩

/-! ### Responses -/

/-- The entry of the request that a response reaches. -/
def reached (o : OutboundRequests N) (peer : N) (response : StateSyncResponse) :
    Option (InFlightRequest N) :=
  if (get? o.prefixPeers response.request.prefixValue).any (· ≠ peer) then none
  else get? o.inFlightRequests response.request

/-- The peer of a prefix is set by the first of its responses. -/
def noteResponse (o : OutboundRequests N) (peer : N) (response : StateSyncResponse) :
    OutboundRequests N :=
  if (get? o.prefixPeers response.request.prefixValue).any (· ≠ peer) then o
  else { o with prefixPeers := Assoc.set o.prefixPeers response.request.prefixValue peer }

/-- A response reaches no request, or it is applied to one, which is done with the last of them. -/
theorem handleResponse_cases (o : OutboundRequests N) (now : ℕ) (peer : N)
    (response : StateSyncResponse) :
    (o.reached peer response = none ∧
      o.handleResponse now peer response = .ok (o.noteResponse peer response, [])) ∨
    ∃ e, o.reached peer response = some e ∧ get? o.inFlightRequests response.request = some e ∧
      o.handleResponse now peer response = (e.applyResponse now response >>= fun r =>
        if r.2.getLast?.any (·.responseN ≠ 0) then
          .ok ({ o.noteResponse peer response with
            inFlightRequests := Assoc.remove o.inFlightRequests response.request }, r.2)
        else
          .ok ({ o.noteResponse peer response with
            inFlightRequests := insertBy StateSyncRequest.Before o.inFlightRequests
              response.request r.1 }, r.2)) := by
  unfold handleResponse reached noteResponse
  split
  · exact .inl ⟨rfl, rfl⟩
  · dsimp only
    cases get? o.inFlightRequests response.request with
    | none => exact .inl ⟨rfl, rfl⟩
    | some e => exact .inr ⟨e, rfl, rfl, rfl⟩

theorem handleResponse_eq_ok (h : o.handleResponse now peer response = .ok (o', handed)) :
    (o' = o.noteResponse peer response ∧ handed = []) ∨
    ∃ e e', o.reached peer response = some e ∧ get? o.inFlightRequests response.request = some e ∧
      e.applyResponse now response = .ok (e', handed) ∧
      o' = { o.noteResponse peer response with
        inFlightRequests :=
          if handed.getLast?.any (·.responseN ≠ 0) then
            Assoc.remove o.inFlightRequests response.request
          else
            insertBy StateSyncRequest.Before o.inFlightRequests response.request e' } := by
  rcases handleResponse_cases o now peer response with ⟨-, heq⟩ | ⟨e, hreached, he, heq⟩
  · cases heq.symm.trans h
    exact .inl ⟨rfl, rfl⟩
  obtain ⟨⟨e', responses⟩, happly, h⟩ := bind_eq_ok.mp (heq.symm.trans h)
  refine .inr ⟨e, e', hreached, he, ?_⟩
  split at h
  next hlast =>
    cases h
    exact ⟨happly, by rw [if_pos hlast]⟩
  next hlast =>
    cases h
    exact ⟨happly, by rw [if_neg hlast]⟩

/-! ### What every call keeps -/

theorem Keyed.of_inFlight (h : o.Keyed) (hmax : o'.maxParallelRequests = o.maxParallelRequests)
    (hin : o'.inFlightRequests = o.inFlightRequests) : o'.Keyed where
  max_pos := hmax ▸ h.max_pos
  nodup := hin ▸ h.nodup
  bounded := by
    rw [hin, hmax]
    exact h.bounded

theorem Keyed.insertRequest (h : o.Keyed)
    (hroom : o.inFlightRequests.length < o.maxParallelRequests)
    (hr : o.insertRequest rng now request = .ok (o', result)) : o'.Keyed := by
  rcases insertRequest_eq_ok hr with ⟨-, rfl, -⟩ | ⟨peer, info, -, rfl, -⟩
  · exact h.of_inFlight rfl rfl
  · exact ⟨h.max_pos, nodup_insertBy _ h.nodup,
      (length_insertBy_le _).trans (Nat.succ_le_of_lt hroom)⟩

theorem noteTimeout_eq (o : OutboundRequests N) (peer : N) (now : ℕ) :
    o.noteTimeout peer now = { o with peers := (o.noteTimeout peer now).peers } := by
  unfold noteTimeout
  split <;> rfl

theorem Keyed.removed (h : o.Keyed) (peers : List (N × PeerInfo)) (request : StateSyncRequest) :
    Keyed { o with peers := peers,
                   inFlightRequests := Assoc.remove o.inFlightRequests request } where
  max_pos := h.max_pos
  nodup := h.nodup.sublist (filter_sublist.map _)
  bounded := (length_filter_le _ _).trans h.bounded

theorem Keyed.poll (h : o.Keyed) (hr : o.poll rng now = .ok (o', result)) : o'.Keyed := by
  rcases poll_cases o rng now with ⟨toSend, pending, -, hroom, heq⟩ | ⟨deadline, heq, -⟩ |
    ⟨request, e, he, heq⟩
  · rw [heq] at hr
    have hrest : Keyed { o with pendingRequests := pending } := h.of_inFlight rfl rfl
    exact hrest.insertRequest hroom hr
  · cases heq.symm.trans hr
    exact h
  · rw [heq, noteTimeout_eq] at hr
    have hperm := perm_cons_remove h.nodup (get?_of_mem h.nodup he)
    have hlen := hperm.length_eq
    have hbounded := h.bounded
    rw [length_cons] at hlen
    exact Keyed.insertRequest (h.removed _ request) (by dsimp only; omega) hr

theorem noteResponse_inFlight (o : OutboundRequests N) (peer : N) (response : StateSyncResponse) :
    (o.noteResponse peer response).inFlightRequests = o.inFlightRequests := by
  unfold noteResponse
  split <;> rfl

theorem noteResponse_max (o : OutboundRequests N) (peer : N) (response : StateSyncResponse) :
    (o.noteResponse peer response).maxParallelRequests = o.maxParallelRequests := by
  unfold noteResponse
  split <;> rfl

theorem Keyed.handleResponse (h : o.Keyed)
    (hr : o.handleResponse now peer response = .ok (o', handed)) : o'.Keyed := by
  rcases handleResponse_eq_ok hr with ⟨rfl, -⟩ | ⟨e, e', -, he, -, rfl⟩
  · exact h.of_inFlight (noteResponse_max o peer response) (noteResponse_inFlight o peer response)
  split
  · exact (h.removed o.peers response.request).of_inFlight (noteResponse_max o peer response) rfl
  refine ⟨(noteResponse_max o peer response).symm ▸ h.max_pos, nodup_insertBy _ h.nodup, ?_⟩
  have hlen := (perm_insertBy (l := o.inFlightRequests) (k := response.request) (v := e')
    StateSyncRequest.Before).length_eq
  have hlen' := (perm_cons_remove h.nodup he).length_eq
  rw [length_cons] at hlen hlen'
  rw [hlen, ← hlen']
  exact (noteResponse_max o peer response).symm ▸ h.bounded

theorem queueRequest_eq_ok (h : o.queueRequest request = .ok o') :
    o' = o.insertPending request := by
  unfold queueRequest at h
  split at h
  · exact (Except.ok.inj h).symm
  · split at h
    · exact (Except.ok.inj h).symm
    · cases h

/-! ### What a call does -/

/-- A call has nothing to do with the entry of a request. -/
def Apart (request : StateSyncRequest) (e : InFlightRequest N) : Call N → Answer N → Prop
  | .poll _ _, answer => ∀ peer, answer ≠ .polled (.request peer request)
  | .handleResponse _ _ response, answer => response.request = request → answer = .handedOn []
  | .handleBadVersion peer badVersion, _ =>
    ¬ (e.peer = peer ∧ badVersion.maxVersion < request.version)
  | .handleNotWhitelisted peer, _ => e.peer ≠ peer
  | _, _ => True

/-- The calls after which a peer is no longer trusted. -/
def Prunes (peer : N) : Call N → Prop
  | .handleBadVersion peer' badVersion => peer' = peer ∧ incompatible badVersion = true
  | .handleNotWhitelisted peer' => peer' = peer
  | _ => False

theorem addPeers_isSome (newPeers : List N) (h : (get? peers peer).isSome = true) :
    (get? (addPeers peers newPeers) peer).isSome = true := by
  induction newPeers generalizing peers with
  | nil => exact h
  | cons p newPeers ih =>
    refine ih ?_
    rw [get?_set]
    split
    · rfl
    · exact h

/-- What a call does. The calls that are about peers put their requests in flight back into the
queue. -/
inductive Stepped (o : OutboundRequests N) : Call N → OutboundRequests N → Answer N → Prop
  | queueRequest (request : StateSyncRequest) :
      Stepped o (.queueRequest request) (o.insertPending request) .none
  | poll {rng : Chooser N} {now : ℕ} {o' : OutboundRequests N} {result : RequestPollResult N}
      (h : o.poll rng now = .ok (o', result)) : Stepped o (.poll rng now) o' (.polled result)
  | handleResponse {now : ℕ} {peer : N} {response : StateSyncResponse} {o' : OutboundRequests N}
      {responses : List StateSyncResponse}
      (h : o.handleResponse now peer response = .ok (o', responses)) :
      Stepped o (.handleResponse now peer response) o' (.handedOn responses)
  | other {call : Call N} {peers : List (N × PeerInfo)} {pruned : List N}
      {prefixPeers : List (UInt64 × N)} {p : StateSyncRequest × InFlightRequest N → Bool}
      (hcall : ∀ request, call ≠ .queueRequest request)
      (hapart : ∀ request e, Apart request e call .none ∨ p (request, e) = true)
      (hpeers : ∀ peer, ¬ Prunes peer call → (get? o.peers peer).isSome = true →
        (get? peers peer).isSome = true)
      (hfixed : prefixPeers ⊆ o.prefixPeers) :
      Stepped o call (requeue ((o.inFlightRequests.filter p).map Prod.fst)
        { o with peers := peers, prunedPeers := pruned, prefixPeers := prefixPeers }) .none

/-- Nothing in flight is put back. -/
theorem Stepped.quiet {prefixPeers : List (UInt64 × N)}
    (hcall : ∀ request, call ≠ .queueRequest request)
    (hapart : ∀ request (e : InFlightRequest N), Apart request e call .none)
    (hpeers : ∀ peer, ¬ Prunes peer call → (get? o.peers peer).isSome = true →
      (get? peers peer).isSome = true) (hfixed : prefixPeers ⊆ o.prefixPeers) :
    Stepped o call { o with peers := peers, prefixPeers := prefixPeers } .none := by
  have h : Stepped o call (requeue ((o.inFlightRequests.filter fun _ => false).map Prod.fst)
      { o with peers := peers, prefixPeers := prefixPeers }) .none :=
    .other hcall (fun request e => .inl (hapart request e)) hpeers hfixed
  simpa [requeue] using h

theorem isSome_remove {peer' : N} (hne : peer' ≠ peer) (hpeer : (get? o.peers peer).isSome = true) :
    (get? (Assoc.remove o.peers peer') peer).isSome = true := by
  rw [get?_remove, if_neg (Ne.symm hne)]
  exact hpeer

theorem step_cases (h : o.step call = .ok (o', answer)) : Stepped o call o' answer := by
  cases call with
  | queueRequest request =>
    obtain ⟨o₁, hq, heq⟩ := except_map_eq_ok.mp h
    cases heq
    rw [queueRequest_eq_ok hq]
    exact .queueRequest request
  | poll rng now =>
    obtain ⟨r, hr, heq⟩ := except_map_eq_ok.mp h
    cases heq
    exact .poll hr
  | handleResponse now peer response =>
    obtain ⟨r, hr, heq⟩ := except_map_eq_ok.mp h
    cases heq
    exact .handleResponse hr
  | handleBadVersion peer badVersion =>
    cases h
    have hapart : ∀ (request : StateSyncRequest) (e : InFlightRequest N), _ ∨
        (decide (e.peer = peer) && decide (badVersion.maxVersion < request.version)) = true :=
      fun request e => by rw [← Bool.decide_and, decide_eq_true_iff]; exact (em _).symm
    unfold handleBadVersion
    split
    next hinc =>
      exact .other (by rintro _ ⟨⟩) hapart (fun peer' hprunes hpeer =>
        isSome_remove (fun heq => hprunes ⟨heq, hinc⟩) hpeer) (List.Subset.refl _)
    refine .other (by rintro _ ⟨⟩) hapart (fun peer' _ hpeer => ?_) (List.Subset.refl _)
    rw [get?_set]
    split
    · rfl
    · exact hpeer
  | handleNotWhitelisted peer =>
    cases h
    exact .other (by rintro _ ⟨⟩) (fun request e => by rw [decide_eq_true_iff]; exact (em _).symm)
      (fun peer' hprunes hpeer => isSome_remove hprunes hpeer) (List.Subset.refl _)
  | expandUpstreamPeers newPeers =>
    cases h
    exact .quiet (by rintro _ ⟨⟩) (fun _ _ => trivial) (fun peer _ => addPeers_isSome _) (List.Subset.refl _)
  | clearPrefixPeers =>
    cases h
    exact .quiet (by rintro _ ⟨⟩) (fun _ _ => trivial) (fun peer _ => id) (nil_subset _)
  | doneSync =>
    cases h
    exact .quiet (by rintro _ ⟨⟩) (fun _ _ => trivial) (fun peer _ => id) (nil_subset _)

theorem Keyed.step (h : o.Keyed) (hstep : o.step call = .ok (o', answer)) : o'.Keyed := by
  cases step_cases hstep with
  | queueRequest => exact h.of_inFlight rfl rfl
  | poll hr => exact h.poll hr
  | handleResponse hr => exact h.handleResponse hr
  | @other call peers pruned prefixPeers =>
    have hpeers : Keyed { o with peers := peers, prunedPeers := pruned, prefixPeers := prefixPeers } :=
      h.of_inFlight rfl rfl
    exact hpeers.requeued (requeue_spec _ _)

/-! ### Where an entry comes from -/

variable {e : InFlightRequest N}

/-- A request is put in flight with a fresh entry, and the other entries are as before. -/
theorem insertRequest_entry {toSend : StateSyncRequest}
    (h : o.insertRequest rng now toSend = .ok (o', result))
    (he : get? o'.inFlightRequests request = some e) :
    (∃ peer, result = .request peer request ∧ e = .new peer now ∧
      (get? o'.peers peer).isSome = true) ∨
    ((∀ peer, result ≠ .request peer request) ∧ get? o.inFlightRequests request = some e) := by
  rcases insertRequest_eq_ok h with ⟨-, rfl, rfl⟩ | ⟨peer, info, hinfo, rfl, rfl⟩
  · exact .inr ⟨nofun, he⟩
  rw [get?_insertBy] at he
  split at he
  next hreq =>
    exact .inl ⟨peer, by rw [hreq], (Option.some.inj he).symm, Option.isSome_of_eq_some hinfo⟩
  next hreq =>
    refine .inr ⟨fun peer' hresult => hreq ?_, he⟩
    injection hresult with _ hsent
    exact hsent.symm

theorem poll_entry (h : o.poll rng now = .ok (o', result))
    (he : get? o'.inFlightRequests request = some e) :
    (∃ peer, result = .request peer request ∧ e = .new peer now ∧
      (get? o'.peers peer).isSome = true) ∨
    ((∀ peer, result ≠ .request peer request) ∧ get? o.inFlightRequests request = some e) := by
  rcases poll_cases o rng now with ⟨toSend, pending, -, -, heq⟩ | ⟨deadline, heq, -⟩ |
    ⟨r, e₁, -, heq⟩
  · rw [heq] at h
    have hcases := insertRequest_entry h he
    exact hcases
  · cases heq.symm.trans h
    exact .inr ⟨nofun, he⟩
  · rw [heq, noteTimeout_eq] at h
    exact (insertRequest_entry h he).imp_right fun hr => ⟨hr.1, (get?_remove_some hr.2).2⟩

/-- An entry is fresh, or a response has been applied to it, or the call left it alone. -/
theorem step_entry (hnodup : (o.inFlightRequests.map Prod.fst).Nodup) {answer : Answer N}
    (hstep : o.step call = .ok (o', answer)) (he : get? o'.inFlightRequests request = some e) :
    (∃ rng now peer, call = .poll rng now ∧ answer = .polled (.request peer request) ∧
      e = .new peer now ∧ (get? o'.peers peer).isSome = true) ∨
    (∃ now peer response e₁ responses, call = .handleResponse now peer response ∧
      answer = .handedOn responses ∧ response.request = request ∧
      o.reached peer response = some e₁ ∧ get? o.inFlightRequests request = some e₁ ∧
      e₁.applyResponse now response = .ok (e, responses)) ∨
    (Apart request e call answer ∧ get? o.inFlightRequests request = some e) := by
  cases step_cases hstep with
  | queueRequest r => exact .inr (.inr ⟨trivial, he⟩)
  | poll hr =>
    rcases poll_entry hr he with ⟨peer, hresult, hnew, hpeer⟩ | ⟨hresult, he⟩
    · exact .inl ⟨_, _, peer, rfl, by rw [hresult], hnew, hpeer⟩
    · exact .inr (.inr ⟨fun peer heq => hresult peer (Answer.polled.inj heq), he⟩)
  | @handleResponse now peer response _ _ hr =>
    rcases handleResponse_eq_ok hr with ⟨rfl, rfl⟩ | ⟨e₁, e₂, hreached, he₁, happly, rfl⟩
    · rw [noteResponse_inFlight] at he
      exact .inr (.inr ⟨fun _ => rfl, he⟩)
    split at he
    · obtain ⟨hne, he⟩ := get?_remove_some he
      exact .inr (.inr ⟨fun heq => absurd heq.symm hne, he⟩)
    rw [get?_insertBy] at he
    split at he
    next hreq =>
      cases he
      subst hreq
      exact .inr (.inl ⟨now, peer, response, e₁, _, rfl, rfl, rfl, hreached, he₁, happly⟩)
    next hreq => exact .inr (.inr ⟨fun heq => absurd heq.symm hreq, he⟩)
  | other _ hapart _ _ =>
    obtain ⟨hnot, he⟩ := (requeue_spec _ _).get?_inFlight he hnodup
    refine .inr (.inr ⟨(hapart request e).resolve_right fun hp => hnot (mem_map.mpr
      ⟨(request, e), mem_filter.mpr ⟨mem_of_get? he, hp⟩, rfl⟩), he⟩)

/-! ### The peers after a call -/

theorem noteTimeout_isSome (peer' : N) (now : ℕ) (h : (get? o.peers peer).isSome = true) :
    (get? (o.noteTimeout peer' now).peers peer).isSome = true := by
  unfold noteTimeout
  split
  · exact h
  rw [get?_set]
  split
  · rfl
  · exact h

theorem insertRequest_peers (h : o.insertRequest rng now request = .ok (o', result)) :
    o'.peers = o.peers ∧ o'.prefixPeers = o.prefixPeers := by
  rcases insertRequest_eq_ok h with ⟨-, rfl, -⟩ | ⟨peer, info, -, rfl, -⟩
  · exact ⟨rfl, rfl⟩
  · exact ⟨rfl, rfl⟩

/-- A poll keeps the peers, except for the times at which requests to them timed out. -/
theorem poll_peers (peer : N) (h : o.poll rng now = .ok (o', result)) :
    ((get? o.peers peer).isSome = true → (get? o'.peers peer).isSome = true) ∧
      o'.prefixPeers = o.prefixPeers := by
  rcases poll_cases o rng now with ⟨toSend, pending, -, -, heq⟩ | ⟨deadline, heq, -⟩ |
    ⟨request, e, -, heq⟩
  · rw [heq] at h
    obtain ⟨hpeers, hfixed⟩ := insertRequest_peers h
    exact ⟨fun hpeer => hpeers ▸ hpeer, hfixed⟩
  · cases heq.symm.trans h
    exact ⟨id, rfl⟩
  · rw [heq] at h
    obtain ⟨hpeers, hfixed⟩ := insertRequest_peers h
    refine ⟨fun hpeer => hpeers ▸ noteTimeout_isSome e.peer now hpeer, hfixed.trans ?_⟩
    rw [noteTimeout_eq]

theorem handleResponse_peers (h : o.handleResponse now peer response = .ok (o', handed)) :
    o'.peers = o.peers ∧ o'.prefixPeers = (o.noteResponse peer response).prefixPeers := by
  have hnote : (o.noteResponse peer response).peers = o.peers := by
    unfold noteResponse
    split <;> rfl
  rcases handleResponse_eq_ok h with ⟨rfl, -⟩ | ⟨e, e', -, -, -, rfl⟩
  · exact ⟨hnote, rfl⟩
  · exact ⟨hnote, rfl⟩

theorem step_peers (hstep : o.step call = .ok (o', answer)) (hprunes : ¬ Prunes peer call)
    (hpeer : (get? o.peers peer).isSome = true) : (get? o'.peers peer).isSome = true := by
  cases step_cases hstep with
  | queueRequest => exact hpeer
  | poll hr => exact (poll_peers peer hr).1 hpeer
  | handleResponse hr =>
    rw [(handleResponse_peers hr).1]
    exact hpeer
  | other _ _ hpeers _ =>
    rw [(requeue_spec _ _).peers]
    exact hpeers peer hprunes hpeer

theorem Inv.step (h : o.Inv) (hstep : o.step call = .ok (o', answer)) : o'.Inv where
  toKeyed := h.toKeyed.step hstep
  waits {request e} he := by
    rcases step_entry h.nodup hstep he with ⟨rng, now, peer, -, -, rfl, -⟩ |
      ⟨now, peer, response, e₁, responses, -, -, hrequest, -, he₁, happly⟩ | ⟨-, he⟩
    · exact InFlightRequest.waits_new request peer now
    · exact (InFlightRequest.waits_applyResponse (h.waits he₁) hrequest happly).1
    · exact h.waits he

theorem inv_new {maxParallelRequests requestTimeout : ℕ} {initPeers : List N}
    (hmax : 0 < maxParallelRequests) : (new maxParallelRequests requestTimeout initPeers).Inv where
  max_pos := hmax
  nodup := nodup_nil
  bounded := Nat.zero_le _
  waits he := by cases he

end OutboundRequests

/-- Every run keeps what every call keeps. -/
theorem Run.inv {o₀ o : OutboundRequests N} {log : Log N} (h₀ : o₀.Inv) (h : Run C o₀ log o) :
    o.Inv := by
  induction h with
  | nil => exact h₀
  | snoc _ _ _ hstep ih => exact ih.step hstep

end MonadBft.Statesync
