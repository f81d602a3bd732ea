import MonadBft.Statesync.OutboundRequests

/-!
# Reassembly of responses

A server answers a request in a session: responses with a nonce of its own, numbered from zero,
the last of which has a nonzero `responseN`. A request that timed out is sent again, so that
responses of several sessions may arrive, late and out of order.

`handedSince` are the responses that have been handed on since a request was put in flight. They
are the first responses of one session, and the entry of the request is removed with the last of
them (`responses_reassembled`), provided that no response of another session gets in
(`Intrudes`). The code tells sessions apart only by the responses that wait in the entry, so that
nothing keeps another session out after responses have been handed on in order
(`responses_of_two_sessions`).
-/

set_option linter.unusedSectionVars false

namespace MonadBft.Statesync

open Assoc List OutboundRequests

variable {N : Type} [DecidableEq N]

/-! ## Sessions -/

/-- The responses of a session. -/
structure Session (nonce : UInt64) (responses : List StateSyncResponse) : Prop where
  nonce_eq : ∀ y ∈ responses, y.nonce = nonce
  index_eq : ∀ {i : ℕ} {y : StateSyncResponse}, responses[i]? = some y → y.responseIndex.toNat = i
  last : ∀ {i : ℕ} {y : StateSyncResponse}, responses[i]? = some y → y.responseN ≠ 0 →
    i + 1 = responses.length

/-- The responses handed on for a request, after one more call. -/
def handedAfter (request : StateSyncRequest) (handed : List StateSyncResponse) :
    Call N × Answer N → List StateSyncResponse
  | (.poll _ _, .polled (.request _ sent)) => if sent = request then [] else handed
  | (.handleResponse _ _ response, .handedOn responses) =>
    if response.request = request then handed ++ responses else handed
  | _ => handed

/-- The responses handed on since a request was last put in flight. -/
def handedSince (request : StateSyncRequest) (log : Log N) : List StateSyncResponse :=
  log.foldl (handedAfter request) []

theorem handedSince_snoc (request : StateSyncRequest) (log : Log N) (call : Call N)
    (answer : Answer N) : handedSince request (log ++ [(call, answer)])
      = handedAfter request (handedSince request log) (call, answer) := by
  unfold handedSince
  rw [foldl_append]
  rfl

/-- A response of another session than those handed on is accepted by an entry: it is not too
late, and there is nothing in the entry to hold it off. -/
def Intrudes (e : InFlightRequest N) (handed : List StateSyncResponse) (now : ℕ)
    (response : StateSyncResponse) : Prop :=
  (∃ y ∈ handed, y.nonce ≠ response.nonce) ∧ e.responseIndex ≤ response.responseIndex.toNat ∧
    (e.existingNonce.any (· ≠ response.nonce) = false ∨ e.resets now response.nonce = true)

instance (e : InFlightRequest N) (handed : List StateSyncResponse) (now : ℕ)
    (response : StateSyncResponse) : Decidable (Intrudes e handed now response) :=
  inferInstanceAs (Decidable (_ ∧ _ ∧ _))

/-- Responses are those of the sessions for their request. -/
def OfSessions (sessions : StateSyncRequest → UInt64 → List StateSyncResponse) : Call N → Prop
  | .handleResponse _ _ response =>
    (sessions response.request response.nonce)[response.responseIndex.toNat]? = some response
  | _ => True

/-- Responses are those of the sessions for their request, and none intrudes. -/
def FromSessions (sessions : StateSyncRequest → UInt64 → List StateSyncResponse) (log : Log N)
    (o : OutboundRequests N) (call : Call N) : Prop :=
  OfSessions sessions call ∧ match call with
    | .handleResponse now peer response => ∀ e ∈ o.reached peer response,
        ¬ Intrudes e (handedSince response.request log) now response
    | _ => True

instance (sessions : StateSyncRequest → UInt64 → List StateSyncResponse) (call : Call N) :
    Decidable (OfSessions sessions call) :=
  match call with
  | .handleResponse _ _ response => inferInstanceAs (Decidable (_ = some response))
  | .queueRequest _ | .poll _ _ | .handleBadVersion _ _ | .handleNotWhitelisted _
  | .expandUpstreamPeers _ | .clearPrefixPeers | .doneSync => isTrue trivial

instance (sessions : StateSyncRequest → UInt64 → List StateSyncResponse) (log : Log N)
    (o : OutboundRequests N) (call : Call N) : Decidable (FromSessions sessions log o call) :=
  match call with
  | .handleResponse _ peer response =>
    inferInstanceAs (Decidable (_ ∧ ∀ e ∈ o.reached peer response, ¬ Intrudes e _ _ _))
  | .queueRequest _ | .poll _ _ | .handleBadVersion _ _ | .handleNotWhitelisted _
  | .expandUpstreamPeers _ | .clearPrefixPeers | .doneSync => isTrue ⟨trivial, trivial⟩

/-! ## What an entry holds -/

/-- What has been handed on and what waits are responses of one session, and what has been handed
on are the first of them. -/
structure InSession (sessions : UInt64 → List StateSyncResponse) (e : InFlightRequest N)
    (handed : List StateSyncResponse) : Prop where
  index : handed.map (·.responseIndex.toNat) = range e.responseIndex
  mem : ∀ y, y ∈ handed ∨ y ∈ e.responses.map Prod.snd →
    (sessions y.nonce)[y.responseIndex.toNat]? = some y
  nonce : ∀ y ∈ handed, ∀ z, z ∈ handed ∨ z ∈ e.responses.map Prod.snd → y.nonce = z.nonce

variable {sessions : UInt64 → List StateSyncResponse} {e e' : InFlightRequest N}
  {handed responses : List StateSyncResponse} {request : StateSyncRequest}
  {response : StateSyncResponse} {now : ℕ} {y : StateSyncResponse}

theorem inSession_new (peer : N) (now : ℕ) : InSession sessions (.new peer now) [] :=
  ⟨rfl, by simp [InFlightRequest.new], by simp⟩

/-- They are a part of that session from its start. -/
theorem InSession.initial (h : InSession sessions e handed) (hy : y ∈ handed) :
    handed <+: sessions y.nonce := by
  refine prefix_iff_eq_take.mpr (ext_getElem? fun i => ?_)
  have hlen : handed.length = e.responseIndex := by
    have := congrArg List.length h.index
    simpa using this
  by_cases hi : i < handed.length
  · have hat := getElem_mem hi
    have hindex : handed[i].responseIndex.toNat = i := by
      have := congrArg (·[i]?) h.index
      simpa [hi, hlen ▸ hi] using this
    have hsession := h.mem handed[i] (.inl hat)
    rw [hindex, ← h.nonce y hy _ (.inl hat)] at hsession
    rw [getElem?_take_of_lt hi, hsession, getElem?_eq_getElem hi]
  · rw [getElem?_eq_none (by omega), getElem?_eq_none]
    rw [length_take]
    omega

/-- With the last response of the session, they are all of it. -/
theorem InSession.complete (h : InSession sessions e handed)
    (hsession : Session y.nonce (sessions y.nonce)) (hy : handed.getLast? = some y)
    (hlast : y.responseN ≠ 0) : handed = sessions y.nonce := by
  have hmem := mem_of_getLast? hy
  refine (h.initial hmem).eq_of_length ?_
  have hlen : handed.length = e.responseIndex := by
    have := congrArg List.length h.index
    simpa using this
  have hindex : y.responseIndex.toNat = e.responseIndex - 1 := by
    have := congrArg getLast? h.index
    rw [getLast?_map, hy, getLast?_range] at this
    split at this
    · cases this
    · exact Option.some.inj this
  have := hsession.last (h.mem y (.inl hmem)) hlast
  have := length_pos_of_mem hmem
  omega

theorem InSession.accept {base : InFlightRequest N}
    (h : InSession sessions e handed) (hbase : InFlightRequest.Base request e response.nonce base)
    (hsession : (sessions response.nonce)[response.responseIndex.toNat]? = some response)
    (hsame : e.responseIndex ≤ response.responseIndex.toNat →
      ∀ y ∈ handed, y.nonce = response.nonce)
    (hacc : base.accept now response = .ok (e', responses)) :
    InSession sessions e' (handed ++ responses) := by
  have hsub : ∀ z ∈ base.responses.map Prod.snd, z ∈ e.responses.map Prod.snd := by
    intro z hz
    obtain ⟨a, ha, rfl⟩ := mem_map.mp hz
    exact mem_map.mpr ⟨a, hbase.responses a ha, rfl⟩
  have hnonce : ∀ z ∈ base.responses.map Prod.snd, z.nonce = response.nonce := by
    intro z hz
    obtain ⟨a, ha, rfl⟩ := mem_map.mp hz
    exact hbase.nonce a ha
  rcases InFlightRequest.accept_cases hbase.waits hacc with ⟨-, rfl, rfl⟩ |
    ⟨heq, run, rest, hsplit, hrun, -, rfl, rfl⟩ | ⟨hgt, rfl, rfl⟩
  · rw [append_nil]
    refine ⟨by rw [h.index, hbase.responseIndex], fun y hy => h.mem y (hy.imp_right (hsub y)),
      fun y hy z hz => h.nonce y hy z (hz.imp_right (hsub z))⟩
  · -- the new responses have the indices after those handed on
    have hsame := hsame (by rw [heq, hbase.responseIndex])
    have hrunmem : ∀ z ∈ run.map Prod.snd, z ∈ base.responses.map Prod.snd := by
      intro z hz
      rw [hsplit, map_append]
      exact mem_append_left _ hz
    have hrestmem : ∀ z ∈ rest.map Prod.snd, z ∈ base.responses.map Prod.snd := by
      intro z hz
      rw [hsplit, map_append]
      exact mem_append_right _ hz
    have hrunindex : (run.map Prod.snd).map (·.responseIndex.toNat)
        = range' (base.responseIndex + 1) run.length := by
      rw [← hrun, map_map]
      refine map_congr_left fun a ha => hbase.waits.index a ?_
      rw [hsplit]
      exact mem_append_left _ ha
    have hall : ∀ z, z ∈ handed ++ response :: run.map Prod.snd ∨ z ∈ rest.map Prod.snd →
        (z ∈ handed ∨ z = response ∨ z ∈ base.responses.map Prod.snd) := by
      rintro z (hz | hz)
      · rcases mem_append.mp hz with hz | hz
        · exact .inl hz
        · rcases mem_cons.mp hz with rfl | hz
          · exact .inr (.inl rfl)
          · exact .inr (.inr (hrunmem z hz))
      · exact .inr (.inr (hrestmem z hz))
    have hone : ∀ z, z ∈ handed ++ response :: run.map Prod.snd ∨ z ∈ rest.map Prod.snd →
        z.nonce = response.nonce := by
      intro z hz
      rcases hall z hz with hz | rfl | hz
      · exact hsame z hz
      · rfl
      · exact hnonce z hz
    refine ⟨?_, fun z hz => ?_, fun y hy z hz => (hone y (.inl hy)).trans (hone z hz).symm⟩
    · rw [map_append, h.index, map_cons, hrunindex, heq, ← hbase.responseIndex,
        range_eq_range', range_eq_range', ← range'_succ,
        show base.responseIndex + 1 + run.length = base.responseIndex + (run.length + 1) by omega]
      have := @range'_append_1 0 base.responseIndex (run.length + 1)
      rwa [Nat.zero_add] at this
    · rcases hall z hz with hz | rfl | hz
      · exact h.mem z (.inl hz)
      · exact hsession
      · exact h.mem z (.inr (hsub z hz))
  · have hsame := hsame (by rw [← hbase.responseIndex]; omega)
    have hall : ∀ z, z ∈ (Assoc.insert base.responses response.responseIndex.toNat response).map
        Prod.snd → z = response ∨ z ∈ base.responses.map Prod.snd := by
      intro z hz
      obtain ⟨a, ha, rfl⟩ := mem_map.mp hz
      rcases mem_insert.mp ha with rfl | ⟨ha, -⟩
      · exact .inl rfl
      · exact .inr (mem_map.mpr ⟨a, ha, rfl⟩)
    rw [append_nil]
    refine ⟨by rw [h.index, hbase.responseIndex], fun y hy => ?_, fun y hy z hz => ?_⟩
    · rcases hy with hy | hy
      · exact h.mem y (.inl hy)
      · rcases hall y hy with rfl | hy
        · exact hsession
        · exact h.mem y (.inr (hsub y hy))
    · rcases hz with hz | hz
      · exact h.nonce y hy z (.inl hz)
      · rcases hall z hz with rfl | hz
        · exact hsame y hy
        · exact h.nonce y hy z (.inr (hsub z hz))

theorem InSession.applyResponse (h : InSession sessions e handed) (hw : e.Waits request)
    (hsession : (sessions response.nonce)[response.responseIndex.toNat]? = some response)
    (hintrudes : ¬ Intrudes e handed now response)
    (happly : e.applyResponse now response = .ok (e', responses)) :
    InSession sessions e' (handed ++ responses) := by
  rcases InFlightRequest.applyResponse_cases hw now response with ⟨-, -, hdrop⟩ |
    ⟨base, hbase, hhow, hacc⟩
  · rw [hdrop] at happly
    cases happly
    rw [append_nil]
    exact ⟨h.index, h.mem, h.nonce⟩
  · rw [hacc] at happly
    refine h.accept hbase hsession (fun hindex y hy => ?_) happly
    by_contra hne
    refine hintrudes ⟨⟨y, hy, hne⟩, hindex, ?_⟩
    rcases hhow with ⟨hany, -⟩ | ⟨-, hreset, -⟩
    · exact .inl hany
    · exact .inr hreset

/-! ## Runs -/

variable {o o' : OutboundRequests N} {log : Log N}
  {served : StateSyncRequest → UInt64 → List StateSyncResponse}

theorem handedAfter_handedOn (now : ℕ) (peer : N) : handedAfter response.request handed
    (.handleResponse now peer response, .handedOn responses) = handed ++ responses := if_pos rfl

theorem handedAfter_of_apart {call : Call N} {answer : Answer N}
    (h : OutboundRequests.Apart request e call answer) :
    handedAfter request handed (call, answer) = handed := by
  unfold handedAfter
  split
  next peer sent heq =>
    obtain ⟨rfl, rfl⟩ := Prod.mk.inj heq
    exact if_neg fun hsent => h peer (by rw [hsent])
  next response responses heq =>
    obtain ⟨rfl, rfl⟩ := Prod.mk.inj heq
    split
    next hrequest =>
      obtain rfl := Answer.handedOn.inj (h hrequest)
      exact append_nil handed
    · rfl
  · rfl

/-- Every entry in flight holds the responses of one session. -/
theorem Run.inSession {o₀ : OutboundRequests N} (h₀ : o₀.Inv) (hempty : o₀.inFlightRequests = [])
    (h : Run (FromSessions served) o₀ log o) (he : get? o.inFlightRequests request = some e) :
    InSession (served request) e (handedSince request log) := by
  induction h generalizing request e with
  | nil =>
    rw [hempty] at he
    cases he
  | snoc hrun _ hC hstep ih =>
    have hinv := hrun.inv h₀
    rw [handedSince_snoc]
    rcases step_entry hinv.nodup hstep he with
      ⟨rng, now, peer, rfl, rfl, rfl, -⟩ |
      ⟨now, peer, response, e₁, responses, rfl, rfl, rfl, hreached, he₁, happly⟩ | ⟨hapart, he⟩
    · rw [handedAfter, if_pos rfl]
      exact inSession_new peer now
    · rw [handedAfter_handedOn]
      exact (ih he₁).applyResponse (hinv.waits he₁) hC.1 (hC.2 e₁ hreached) happly
    · rw [handedAfter_of_apart hapart]
      exact ih he

/-- In every run in which no response of another session intrudes, what has been handed on for a
request in flight is a session for it from its start, and it is the whole session when the entry
is removed by a response. -/
theorem responses_reassembled {maxParallelRequests requestTimeout : ℕ} {initPeers : List N}
    (hmax : 0 < maxParallelRequests)
    (hserved : ∀ request nonce, Session nonce (served request nonce))
    (h : Run (FromSessions served) (.new maxParallelRequests requestTimeout initPeers) log o)
    (request : StateSyncRequest) :
    ((get? o.inFlightRequests request).isSome →
      ∃ nonce, handedSince request log <+: served request nonce) ∧
    ∀ {now : ℕ} {peer : N} {response : StateSyncResponse} {o' : OutboundRequests N}
      {responses : List StateSyncResponse}, o.isTrustedPeer peer →
      FromSessions served log o (.handleResponse now peer response) →
      o.handleResponse now peer response = .ok (o', responses) →
      (get? o.inFlightRequests request).isSome →
      get? o'.inFlightRequests request = none →
      ∃ nonce, handedSince request
        (log ++ [(.handleResponse now peer response, .handedOn responses)])
          = served request nonce := by
  have hinv₀ : (OutboundRequests.new maxParallelRequests requestTimeout initPeers).Inv :=
    inv_new hmax
  have hinv := h.inv hinv₀
  refine ⟨fun hsome => ?_, fun {now peer response o' responses} _ hC hresp hsome hnone => ?_⟩
  · obtain ⟨e, he⟩ := Option.isSome_iff_exists.mp hsome
    have hin := h.inSession hinv₀ rfl he
    cases hhanded : handedSince request log with
    | nil => exact ⟨0, nil_prefix⟩
    | cons y handed =>
      rw [hhanded] at hin
      exact ⟨y.nonce, hin.initial mem_cons_self⟩
  · rw [handedSince_snoc]
    rcases handleResponse_eq_ok hresp with
      ⟨rfl, -⟩ | ⟨e₁, e₂, hreached, he₁, happly, rfl⟩
    · rw [noteResponse_inFlight] at hnone
      rw [hnone] at hsome
      cases hsome
    · dsimp only at hnone
      split at hnone
      next hlast =>
        -- the entry that was removed is the one of the response
        have hreq : request = response.request := by
          by_contra hne
          rw [get?_remove, if_neg hne] at hnone
          rw [hnone] at hsome
          cases hsome
        subst hreq
        have hin := (h.inSession hinv₀ rfl he₁).applyResponse (hinv.waits he₁) hC.1
          (hC.2 e₁ hreached) happly
        cases hy : responses.getLast? with
        | none =>
          rw [hy] at hlast
          cases hlast
        | some y =>
          rw [hy] at hlast
          have hend : (handedSince response.request log ++ responses).getLast? = some y := by
            rw [getLast?_append, hy]
            rfl
          refine ⟨y.nonce, ?_⟩
          rw [handedAfter_handedOn]
          exact hin.complete (hserved response.request y.nonce) hend (by simpa using hlast)
      · rw [get?_insertBy] at hnone
        split at hnone
        · cases hnone
        · rw [hnone] at hsome
          cases hsome

namespace Ideal

/-- Sessions of two responses. -/
def twoEach (request : StateSyncRequest) (nonce : UInt64) : List StateSyncResponse :=
  [answer request nonce 0 0, answer request nonce 1 1]

theorem session_twoEach (request : StateSyncRequest) (nonce : UInt64) :
    Session nonce (twoEach request nonce) where
  nonce_eq y hy := by
    rcases mem_pair.mp hy with rfl | rfl <;> rfl
  index_eq {i y} hy := by
    match i with
    | 0 =>
      cases hy
      rfl
    | 1 =>
      cases hy
      rfl
  last {i y} hy hlast := by
    match i with
    | 0 =>
      cases hy
      exact absurd rfl hlast
    | 1 => rfl

def client : OutboundRequests ℕ := .new 1 10 [7]

/-- The request is sent, and the second response arrives before the first. -/
def swapped : Log ℕ × OutboundRequests ℕ :=
  (follow (FromSessions twoEach) [.queueRequest wholeRange, .poll .first 0,
    .handleResponse 1 7 (answer wholeRange 5 1 1)] ([], client)).get (by decide +kernel)

theorem handleResponse_swapped : swapped.2.handleResponse 2 7 (answer wholeRange 5 0 0)
    = .ok ({ client with prefixPeers := [(0, 7)] }, twoEach wholeRange 5) := by
  decide +kernel

/-- The request times out and is sent again, and a late response of the first session arrives
before those of the second. -/
def late : Log ℕ × OutboundRequests ℕ :=
  (follow (fun _ _ => OfSessions twoEach) [.queueRequest wholeRange, .poll .first 0, .poll .first 10,
    .handleResponse 11 7 (answer wholeRange 1 0 0),
    .handleResponse 12 7 (answer wholeRange 2 1 1)] ([], client)).get (by decide +kernel)

end Ideal

open Statesync.Ideal

theorem responses_reassembled_swapped :
    ∃ nonce, handedSince wholeRange (swapped.1 ++ [(.handleResponse 2 7
      (answer wholeRange 5 0 0), .handedOn (twoEach wholeRange 5))])
        = twoEach wholeRange nonce :=
  (responses_reassembled (by decide) session_twoEach (Run.nil.follow (Option.some_get _).symm)
    wholeRange).2
    (by decide +kernel) (by decide +kernel) handleResponse_swapped (by decide +kernel)
    (by decide +kernel)

/-- A response of the first session is handed on, and then one of the second, with which the entry
is removed. -/
theorem responses_of_two_sessions :
    (∀ request nonce, Session nonce (twoEach request nonce)) ∧
    Run (fun _ _ => OfSessions twoEach) client late.1 late.2 ∧
    (handedSince wholeRange late.1).map (·.nonce) = [1, 2] ∧
    late.2.inFlightRequests = [] :=
  ⟨session_twoEach, Run.nil.follow (Option.some_get _).symm, by decide +kernel, by decide +kernel⟩

end MonadBft.Statesync
