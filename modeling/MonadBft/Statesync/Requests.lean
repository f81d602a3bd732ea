import Mathlib.Data.List.Perm.Subperm
import MonadBft.Statesync.OutboundRequests

/-!
# The requests a client has

Whether a request is asked again in another version, or moved between the pending requests and
those in flight, it stays the same request. `keys` are the requests a client has, pending or in
flight, without their versions. A call keeps them (`Merged`), except that a queued request is added
and that a request is taken away by its last response (`step_keys`).
-/

set_option linter.unusedSectionVars false

namespace MonadBft.Statesync

open Assoc Assoc List OutboundRequests

/-! ## Lists that have been merged -/

section Merged

variable {α : Type*} {l l' l'' : List α} {a : α}

/-- The elements of `l`, some of them fewer times. -/
structure Merged (l l' : List α) : Prop where
  subperm : l'.Subperm l
  subset : l ⊆ l'

theorem Merged.of_perm (h : l.Perm l') : Merged l l' := ⟨h.symm.subperm, h.subset⟩

theorem Merged.refl (l : List α) : Merged l l := .of_perm .rfl

theorem Merged.trans (h : Merged l l') (h' : Merged l' l'') : Merged l l'' :=
  ⟨h'.subperm.trans h.subperm, fun _ ha => h'.subset (h.subset ha)⟩

theorem Merged.mem_iff (h : Merged l l') : a ∈ l' ↔ a ∈ l :=
  ⟨fun ha => h.subperm.subset ha, fun ha => h.subset ha⟩

theorem Merged.nodup (h : Merged l l') (hl : l.Nodup) : l'.Nodup := by
  obtain ⟨l₁, hperm, hsub⟩ := h.subperm
  exact hperm.nodup_iff.mp (hl.sublist hsub)

/-- An element that was there already. -/
theorem Merged.of_mem (h : a ∈ l) : Merged (a :: l) l :=
  ⟨(sublist_cons_self a l).subperm, fun _ hb => by
    rcases mem_cons.mp hb with rfl | hb
    · exact h
    · exact hb⟩

end Merged

/-! ## Keys -/

/-- A request without its version. -/
def StateSyncRequest.key (r : StateSyncRequest) : StateSyncRequest :=
  { r with version := STATESYNC_VERSION_MIN }

namespace OutboundRequests

variable {N : Type} [DecidableEq N] {o o' : OutboundRequests N} {request : StateSyncRequest}
  {response : StateSyncResponse} {peer : N} {now : ℕ} {rng : Chooser N}
  {result : RequestPollResult N} {e : InFlightRequest N}

/-- The requests that are pending or in flight. -/
def keys (o : OutboundRequests N) : List StateSyncRequest :=
  o.pendingRequests.map (·.key) ++ o.inFlightRequests.map (·.1.key)

theorem mem_keys {k : StateSyncRequest} : k ∈ o.keys ↔
    (∃ r ∈ o.pendingRequests, r.key = k) ∨ ∃ a ∈ o.inFlightRequests, a.1.key = k := by
  unfold keys
  rw [mem_append, mem_map, mem_map]

theorem keys_insertPending (o : OutboundRequests N) (request : StateSyncRequest) :
    Merged (request.key :: o.keys) (o.insertPending request).keys := by
  unfold insertPending
  split
  next hmem => exact .of_mem (mem_keys.mpr (.inl ⟨request, hmem, rfl⟩))
  · have hperm := (perm_orderedInsert StateSyncRequest.Before request o.pendingRequests).map
      (·.key)
    exact .of_perm (hperm.symm.append_right _)

/-- Without a request in flight, its key is gone. -/
theorem keys_remove (hnodup : (o.inFlightRequests.map Prod.fst).Nodup)
    (he : get? o.inFlightRequests request = some e) : o.keys.Perm
      (request.key :: keys { o with inFlightRequests := Assoc.remove o.inFlightRequests request }) := by
  have hperm := (perm_cons_remove hnodup he).map (·.1.key)
  exact (hperm.append_left _).trans perm_middle

/-- With a request put in flight, its key is there once. -/
theorem keys_insertBy_perm (o : OutboundRequests N) (request : StateSyncRequest)
    (e : InFlightRequest N) : (keys { o with
      inFlightRequests := insertBy StateSyncRequest.Before o.inFlightRequests request e }).Perm
      (request.key :: keys { o with
        inFlightRequests := Assoc.remove o.inFlightRequests request }) := by
  have hperm := (perm_insertBy (l := o.inFlightRequests) (k := request) (v := e)
    StateSyncRequest.Before).map (·.1.key)
  exact (hperm.append_left _).trans perm_middle

theorem keys_insertBy (o : OutboundRequests N) (request : StateSyncRequest)
    (e : InFlightRequest N) : Merged (request.key :: o.keys) (keys { o with
      inFlightRequests := insertBy StateSyncRequest.Before o.inFlightRequests request e }) := by
  have hkeys := keys_insertBy_perm o request e
  refine ⟨hkeys.subperm.trans ?_, fun k hk => hkeys.mem_iff.mpr ?_⟩
  · refine List.Sublist.subperm (.cons_cons _ (.append_left ?_ _))
    exact filter_sublist.map _
  rcases mem_cons.mp hk with rfl | hk
  · exact mem_cons_self
  rcases mem_keys.mp hk with ⟨r, hr, rfl⟩ | ⟨a, ha, rfl⟩
  · exact mem_cons_of_mem _ (mem_keys.mpr (.inl ⟨r, hr, rfl⟩))
  by_cases heq : a.1 = request
  · rw [heq]
    exact mem_cons_self
  · have hrest : a ∈ Assoc.remove o.inFlightRequests request :=
      mem_filter.mpr ⟨ha, by simpa using heq⟩
    exact mem_cons_of_mem _ (mem_keys.mpr (.inr ⟨a, hrest, rfl⟩))

theorem keys_insertRequest (h : o.insertRequest rng now request = .ok (o', result)) :
    Merged (request.key :: o.keys) o'.keys := by
  rcases insertRequest_eq_ok h with ⟨-, rfl, -⟩ | ⟨peer, info, -, rfl, -⟩
  · exact keys_insertPending o request
  · exact keys_insertBy o (withVersion request info) _

theorem keys_poll (hkeyed : o.Keyed) (h : o.poll rng now = .ok (o', result)) :
    Merged o.keys o'.keys := by
  rcases poll_cases o rng now with ⟨toSend, pending, hpending, -, heq⟩ | ⟨deadline, heq, -⟩ |
    ⟨request, e, he, heq⟩
  · rw [heq] at h
    have hkeys : o.keys = toSend.key :: keys { o with pendingRequests := pending } := by
      unfold keys
      rw [hpending]
      rfl
    rw [hkeys]
    exact keys_insertRequest h
  · cases heq.symm.trans h
    exact .refl _
  · rw [heq, noteTimeout_eq] at h
    have hsent := keys_insertRequest h
    exact (Merged.of_perm (keys_remove hkeyed.nodup (get?_of_mem hkeyed.nodup he))).trans hsent

/-- Requests in flight are made pending again. -/
theorem keys_requeue {rs : List StateSyncRequest} (hrs : rs.Nodup)
    (hmem : ∀ r ∈ rs, r ∈ o.inFlightRequests.map Prod.fst)
    (hnodup : (o.inFlightRequests.map Prod.fst).Nodup) : Merged o.keys (requeue rs o).keys := by
  induction rs generalizing o with
  | nil => exact .refl _
  | cons r rs ih =>
    obtain ⟨hr, hrs⟩ := nodup_cons.mp hrs
    obtain ⟨e, he⟩ := exists_get?_of_mem_keys (hmem r mem_cons_self)
    have hrest := @ih (insertPending
      { o with inFlightRequests := Assoc.remove o.inFlightRequests r } r) hrs ?_ ?_
    · exact ((Merged.of_perm (keys_remove hnodup he)).trans (keys_insertPending _ r)).trans hrest
    · intro r' hr'
      obtain ⟨a, ha, rfl⟩ := mem_map.mp (hmem r' (mem_cons_of_mem _ hr'))
      refine mem_map_of_mem (mem_filter.mpr ⟨ha, ?_⟩)
      simp only [decide_eq_true_iff]
      exact fun heq => hr (heq ▸ hr')
    · exact hnodup.sublist (filter_sublist.map _)

theorem keys_noteResponse (o : OutboundRequests N) (peer : N) (response : StateSyncResponse) :
    (o.noteResponse peer response).keys = o.keys := by
  unfold noteResponse
  split <;> rfl

variable {responses : List StateSyncResponse}

/-- A response keeps the requests, unless it is handed on with a last response. -/
theorem keys_handleResponse (hkeyed : o.Keyed)
    (h : o.handleResponse now peer response = .ok (o', responses)) :
    (responses.getLast?.any (·.responseN ≠ 0) = false ∧ Merged o.keys o'.keys) ∨
    (responses.getLast?.any (·.responseN ≠ 0) = true ∧
      o.keys.Perm (response.request.key :: o'.keys)) := by
  rcases handleResponse_eq_ok h with ⟨rfl, rfl⟩ | ⟨e, e', -, he, -, rfl⟩
  · rw [keys_noteResponse]
    exact .inl ⟨rfl, .refl _⟩
  have hkeys : ∀ l, keys { o.noteResponse peer response with inFlightRequests := l }
      = keys { o with inFlightRequests := l } := by
    intro l
    unfold noteResponse
    split <;> rfl
  have hremove := keys_remove hkeyed.nodup he
  rw [hkeys]
  split
  next hlast => exact .inr ⟨hlast, hremove⟩
  next hlast =>
    exact .inl ⟨by simpa using hlast,
      .of_perm (hremove.trans (keys_insertBy_perm o response.request e').symm)⟩

/-- A call adds the request that it queues, or takes away the one whose last response it hands
on, or keeps the requests. -/
theorem step_keys (h : o.Keyed) {call : Call N} {answer : Answer N}
    (hstep : o.step call = .ok (o', answer)) :
    (∃ request, call = .queueRequest request ∧ answer = .none ∧
      Merged (request.key :: o.keys) o'.keys) ∨
    (∃ now peer response responses, call = .handleResponse now peer response ∧
      answer = .handedOn responses ∧ responses.getLast?.any (·.responseN ≠ 0) = true ∧
      o.keys.Perm (response.request.key :: o'.keys)) ∨
    ((∀ request, call ≠ .queueRequest request) ∧
      (∀ responses, answer = .handedOn responses →
        responses.getLast?.any (·.responseN ≠ 0) = false) ∧
      Merged o.keys o'.keys) := by
  cases step_cases hstep with
  | queueRequest request => exact .inl ⟨request, rfl, rfl, keys_insertPending o request⟩
  | poll hr => exact .inr (.inr ⟨nofun, nofun, keys_poll h hr⟩)
  | handleResponse hr =>
    rcases keys_handleResponse h hr with ⟨hlast, hkeys⟩ | ⟨hlast, hkeys⟩
    · refine .inr (.inr ⟨nofun, fun responses heq => ?_, hkeys⟩)
      obtain rfl := Answer.handedOn.inj heq
      exact hlast
    · exact .inr (.inl ⟨_, _, _, _, rfl, rfl, hlast, hkeys⟩)
  | @other call peers pruned prefixPeers _ hcall =>
    have hpeers : Keyed { o with peers := peers, prunedPeers := pruned, prefixPeers := prefixPeers } :=
      h.of_inFlight rfl rfl
    exact .inr (.inr ⟨hcall, nofun, keys_requeue (hpeers.nodup.sublist (filter_sublist.map _))
      (fun _ hr => (filter_sublist.map _).subset hr) hpeers.nodup⟩)

end OutboundRequests

/-! ## The last response -/

namespace InFlightRequest

variable {N : Type} [DecidableEq N] {e e' : InFlightRequest N} {request : StateSyncRequest}
  {response : StateSyncResponse} {handed : List StateSyncResponse} {now : ℕ}

/-- Of the responses that wait, a last one comes last. -/
def LastOnTop (e : InFlightRequest N) : Prop :=
  ∀ a ∈ e.responses, ∀ b ∈ e.responses, a.2.responseN ≠ 0 → b.1 ≤ a.1

/-- A response is in order with those of its session that wait: a last one comes last. -/
def InOrder (e : InFlightRequest N) (response : StateSyncResponse) : Prop :=
  e.responseIndex ≤ response.responseIndex.toNat → ∀ a ∈ e.responses,
    a.2.nonce = response.nonce → (response.responseN ≠ 0 → a.1 ≤ response.responseIndex.toNat) ∧
      (a.2.responseN ≠ 0 → response.responseIndex.toNat ≤ a.1)

instance (e : InFlightRequest N) (response : StateSyncResponse) : Decidable (e.InOrder response) :=
  inferInstanceAs (Decidable (_ → ∀ a ∈ e.responses, _ → _ ∧ _))

/-- What is handed on in order ends with the last response, if that is among them. -/
theorem applyResponse_lastOnTop (hw : e.Waits request) (hrequest : response.request = request)
    (htop : e.LastOnTop) (horder : e.InOrder response)
    (h : e.applyResponse now response = .ok (e', handed)) :
    e'.LastOnTop ∧ (∀ y ∈ handed, y.request = request) ∧
      ∀ y ∈ handed, y.responseN ≠ 0 → handed.getLast? = some y := by
  rcases applyResponse_cases hw now response with ⟨-, -, hdrop⟩ | ⟨base, hbase, -, hacc⟩
  · rw [hdrop] at h
    cases h
    exact ⟨htop, by simp, by simp⟩
  rw [hacc] at h
  have hbasetop : base.LastOnTop := fun a ha b hb =>
    htop a (hbase.responses a ha) b (hbase.responses b hb)
  have hbaseorder : base.responseIndex ≤ response.responseIndex.toNat → ∀ a ∈ base.responses,
      (response.responseN ≠ 0 → a.1 ≤ response.responseIndex.toNat) ∧
      (a.2.responseN ≠ 0 → response.responseIndex.toNat ≤ a.1) := fun hindex a ha =>
    horder (hbase.responseIndex ▸ hindex) a (hbase.responses a ha) (hbase.nonce a ha)
  rcases accept_cases hbase.waits h with ⟨-, rfl, rfl⟩ |
    ⟨heq, run, rest, hsplit, -, -, rfl, rfl⟩ | ⟨hgt, rfl, rfl⟩
  · exact ⟨hbasetop, by simp, by simp⟩
  · have hmem : ∀ a, a ∈ run ∨ a ∈ rest → a ∈ base.responses := fun a ha => by
      rw [hsplit]
      exact mem_append.mpr ha
    refine ⟨fun a ha b hb => hbasetop a (hmem a (.inr ha)) b (hmem b (.inr hb)), ?_, ?_⟩
    · intro y hy
      rcases mem_cons.mp hy with rfl | hy
      · exact hrequest
      · obtain ⟨a, ha, rfl⟩ := mem_map.mp hy
        exact hbase.waits.request_eq a (hmem a (.inl ha))
    · intro y hy hlast
      rcases mem_cons.mp hy with rfl | hy
      · -- nothing waits below the last response
        cases run with
        | nil => rfl
        | cons a run =>
          have ha := hmem a (.inl mem_cons_self)
          have := hbase.waits.above a ha
          have := (hbaseorder heq.ge a ha).1 hlast
          omega
      · obtain ⟨a, ha, rfl⟩ := mem_map.mp hy
        obtain ⟨run₁, run₂, rfl⟩ := append_of_mem ha
        -- what comes after the last response would have a greater index
        have hnil : run₂ = [] := by
          by_contra hne
          obtain ⟨b, hb⟩ := exists_mem_of_ne_nil run₂ hne
          have hle := hbasetop a (hmem a (.inl ha)) b (hmem b (.inl (by simp [hb]))) hlast
          have hordered := hbase.waits.ordered
          rw [hsplit] at hordered
          have := (pairwise_cons.mp
            (pairwise_append.mp (pairwise_append.mp hordered).1).2.1).1 b hb
          omega
        subst hnil
        rw [map_append, ← cons_append, map_singleton, List.getLast?_concat]
  · refine ⟨fun a ha b hb hlast => ?_, by simp, by simp⟩
    rcases mem_insert.mp ha with rfl | ⟨ha, -⟩
    · rcases mem_insert.mp hb with rfl | ⟨hb, -⟩
      · exact le_rfl
      · exact (hbaseorder hgt.le b hb).1 hlast
    · rcases mem_insert.mp hb with rfl | ⟨hb, -⟩
      · exact (hbaseorder hgt.le a ha).2 hlast
      · exact hbasetop a ha b hb hlast

end InFlightRequest

/-! ## Runs -/

variable {N : Type} [DecidableEq N] {o o' : OutboundRequests N} {log : Log N}
  {response : StateSyncResponse} {peer : N} {now : ℕ} {rng : Chooser N}

def queuedBy : Call N → List StateSyncRequest
  | .queueRequest request => [request.key]
  | _ => []

/-- The requests that have been queued. -/
def queued (log : Log N) : List StateSyncRequest := log.flatMap fun a => queuedBy a.1

def finishedBy : Answer N → List StateSyncRequest
  | .handedOn responses => (responses.filter (·.responseN ≠ 0)).map (·.request.key)
  | _ => []

/-- The requests for which a last response has been handed on. -/
def finished (log : Log N) : List StateSyncRequest := log.flatMap fun a => finishedBy a.2

/-- Requests are distinct, a last response comes last of those that wait, and a peer without a
common version is asked in no version that it claims to have. -/
def Orderly (log : Log N) (o : OutboundRequests N) : Call N → Prop
  | .queueRequest request => request.key ∉ queued log
  | .handleResponse _ peer response => ∀ e ∈ o.reached peer response, e.InOrder response
  | .handleBadVersion peer badVersion => incompatible badVersion = true →
      ∀ a ∈ o.inFlightRequests, a.2.peer = peer → badVersion.maxVersion < a.1.version
  | _ => True

/-- Every queued request is there until its last response, and its entry is in order. -/
structure Accounted (log : Log N) (o : OutboundRequests N) : Prop where
  nodup : o.keys.Nodup
  mem_keys : ∀ k, k ∈ o.keys ↔ k ∈ queued log ∧ k ∉ finished log
  finished_queued : ∀ k ∈ finished log, k ∈ queued log
  lastOnTop : ∀ {request e}, get? o.inFlightRequests request = some e → e.LastOnTop
  trusted : ∀ {request e}, get? o.inFlightRequests request = some e →
    (get? o.peers e.peer).isSome = true

theorem queued_snoc (log : Log N) (call : Call N) (answer : Answer N) :
    queued (log ++ [(call, answer)]) = queued log ++ queuedBy call := by
  unfold queued
  simp

theorem finished_snoc (log : Log N) (call : Call N) (answer : Answer N) :
    finished (log ++ [(call, answer)]) = finished log ++ finishedBy answer := by
  unfold finished
  simp

/-- A request is finished exactly if the last of the responses handed on is a last response. -/
theorem Accounted.mem_finishedBy (h : Accounted log o) (hinv : o.Inv)
    (horder : ∀ e ∈ o.reached peer response, e.InOrder response)
    (hr : o.handleResponse now peer response = .ok (o', responses)) (k : StateSyncRequest) :
    k ∈ finishedBy (.handedOn responses : Answer N) ↔
      responses.getLast?.any (·.responseN ≠ 0) = true ∧ k = response.request.key := by
  rcases handleResponse_eq_ok hr with ⟨-, rfl⟩ | ⟨e, e', hreached, he, happly, -⟩
  · simp [finishedBy]
  obtain ⟨-, hrequest, hlast⟩ := InFlightRequest.applyResponse_lastOnTop (hinv.waits he) rfl
    (h.lastOnTop he) (horder e hreached) happly
  unfold finishedBy
  rw [mem_map]
  constructor
  · rintro ⟨y, hy, rfl⟩
    obtain ⟨hy, hn⟩ := mem_filter.mp hy
    rw [hlast y hy (by simpa using hn), hrequest y hy]
    exact ⟨hn, rfl⟩
  · rintro ⟨hn, rfl⟩
    cases hy : responses.getLast? with
    | none =>
      rw [hy] at hn
      cases hn
    | some y =>
      rw [hy] at hn
      have hmem := mem_of_getLast? hy
      exact ⟨y, mem_filter.mpr ⟨hmem, hn⟩, by rw [hrequest y hmem]⟩

section

variable {call : Call N} {answer : Answer N} (h : Accounted log o) (hinv : o.Inv)
  (hC : Orderly log o call) (hstep : o.step call = .ok (o', answer))

include h hinv hC hstep

/-- The requests after one call. -/
theorem Accounted.step_keys :
    o'.keys.Nodup ∧
    (∀ k, k ∈ o'.keys ↔ k ∈ queued log ++ queuedBy call ∧ k ∉ finished log ++ finishedBy answer) ∧
    ∀ k ∈ finished log ++ finishedBy answer, k ∈ queued log ++ queuedBy call := by
  rcases OutboundRequests.step_keys hinv.toKeyed hstep with ⟨request, rfl, rfl, hkeys⟩ |
    ⟨now, peer, response, responses, rfl, rfl, hlast, hkeys⟩ | ⟨hcall, hanswer, hkeys⟩
  · have hnew : request.key ∉ o.keys := fun hmem => hC ((h.mem_keys _).mp hmem).1
    have hunfinished : request.key ∉ finished log := fun hmem => hC (h.finished_queued _ hmem)
    refine ⟨hkeys.nodup (nodup_cons.mpr ⟨hnew, h.nodup⟩), fun k => ?_, fun k hk => ?_⟩
    · rw [hkeys.mem_iff, mem_cons, h.mem_keys]
      change k = request.key ∨ k ∈ queued log ∧ k ∉ finished log ↔
        k ∈ queued log ++ [request.key] ∧ k ∉ finished log ++ []
      rw [append_nil, mem_append, mem_singleton]
      constructor
      · rintro (rfl | ⟨hq, hf⟩)
        · exact ⟨.inr rfl, hunfinished⟩
        · exact ⟨.inl hq, hf⟩
      · rintro ⟨hq | rfl, hf⟩
        · exact .inr ⟨hq, hf⟩
        · exact .inl rfl
    · refine mem_append_left _ (h.finished_queued k ?_)
      rcases mem_append.mp hk with hk | hk
      · exact hk
      · cases hk
  · cases step_cases hstep with | handleResponse hr => ?_
    have hmem := h.mem_finishedBy hinv hC hr
    obtain ⟨hgone, hnodup⟩ := nodup_cons.mp (hkeys.nodup_iff.mp h.nodup)
    refine ⟨hnodup, fun k => ?_, fun k hk => ?_⟩
    · have hiff := hkeys.mem_iff (a := k)
      rw [h.mem_keys, mem_cons] at hiff
      change k ∈ o'.keys ↔ k ∈ queued log ++ [] ∧ k ∉ finished log ++ _
      rw [append_nil, mem_append, hmem, not_or]
      constructor
      · intro hk
        have hk' := hiff.mpr (.inr hk)
        exact ⟨hk'.1, hk'.2, fun hand => hgone (hand.2 ▸ hk)⟩
      · rintro ⟨hq, hf, hne⟩
        exact (hiff.mp ⟨hq, hf⟩).resolve_left fun heq => hne ⟨hlast, heq⟩
    · refine mem_append_left _ ?_
      rcases mem_append.mp hk with hk | hk
      · exact h.finished_queued k hk
      · obtain ⟨-, rfl⟩ := (hmem k).mp hk
        exact ((h.mem_keys _).mp (hkeys.mem_iff.mpr mem_cons_self)).1
  · have hqueued : queuedBy call = [] := by
      cases call with
      | queueRequest request => exact absurd rfl (hcall request)
      | _ => rfl
    have hfinished : finishedBy answer = [] := by
      refine eq_nil_iff_forall_not_mem.mpr fun k hk => ?_
      cases answer with
      | handedOn responses =>
        cases step_cases hstep with | handleResponse hr => ?_
        have hlast := ((h.mem_finishedBy hinv hC hr k).mp hk).1
        rw [hanswer responses rfl] at hlast
        cases hlast
      | _ => cases hk
    rw [hqueued, hfinished, append_nil, append_nil]
    exact ⟨hkeys.nodup h.nodup, fun k => hkeys.mem_iff.trans (h.mem_keys k), h.finished_queued⟩

theorem Accounted.step : Accounted (log ++ [(call, answer)]) o' := by
  obtain ⟨hnodup, hkeys, hfinished⟩ := h.step_keys hinv hC hstep
  rw [← queued_snoc log call answer, ← finished_snoc log call answer] at hkeys hfinished
  refine ⟨hnodup, hkeys, hfinished, fun {request e} he => ?_, fun {request e} he => ?_⟩
  · rcases step_entry hinv.nodup hstep he with ⟨rng, now, peer, -, -, rfl, -⟩ |
      ⟨now, peer, response, e₁, responses, rfl, -, rfl, hreached, he₁, happly⟩ | ⟨-, he⟩
    · exact fun _ ha => by cases ha
    · exact (InFlightRequest.applyResponse_lastOnTop (hinv.waits he₁) rfl (h.lastOnTop he₁)
        (hC e₁ hreached) happly).1
    · exact h.lastOnTop he
  · rcases step_entry hinv.nodup hstep he with ⟨rng, now, peer, -, -, rfl, hnew⟩ |
      ⟨now, peer, response, e₁, responses, rfl, -, hrequest, hreached, he₁, happly⟩ | ⟨hapart, he⟩
    · exact hnew
    · rw [(InFlightRequest.waits_applyResponse (hinv.waits he₁) hrequest happly).2]
      exact step_peers hstep id (h.trusted he₁)
    · refine step_peers hstep (fun hprunes => ?_) (h.trusted he)
      cases call with
      | handleBadVersion peer badVersion =>
        obtain ⟨rfl, hincompatible⟩ := hprunes
        have hversion := hC hincompatible (request, e) (mem_of_get? he) rfl
        exact hapart ⟨rfl, hversion⟩
      | handleNotWhitelisted peer => exact hapart hprunes.symm
      | _ => exact hprunes

end

theorem accounted_new (maxParallelRequests requestTimeout : ℕ) (initPeers : List N) :
    Accounted [] (.new maxParallelRequests requestTimeout initPeers) where
  nodup := List.nodup_nil
  mem_keys k := by simp [OutboundRequests.keys, new, queued]
  finished_queued _ hk := absurd hk List.not_mem_nil
  lastOnTop he := by cases he
  trusted he := by cases he

theorem Run.accounted {maxParallelRequests requestTimeout : ℕ} {initPeers : List N}
    (hmax : 0 < maxParallelRequests)
    (h : Run Orderly (.new maxParallelRequests requestTimeout initPeers) log o) :
    Accounted log o := by
  induction h with
  | nil => exact accounted_new _ _ _
  | snoc hrun _ hC hstep ih => exact ih.step (hrun.inv (inv_new hmax)) hC hstep

theorem insertRequest_timer_none {request : StateSyncRequest}
    (h : o.insertRequest rng now request = .ok (o', .timer none)) : o.peers = [] := by
  rcases insertRequest_eq_ok h with ⟨hpeers, -, -⟩ | ⟨peer, info, -, -, hsent⟩
  · exact hpeers
  · cases hsent

/-- A poll has nothing to wait for only if nothing is in flight, and nothing is pending or nobody
can be asked. -/
theorem Accounted.poll_timer_none (h : Accounted log o) (hinv : o.Inv)
    (hr : o.poll rng now = .ok (o', .timer none)) :
    o.inFlightRequests = [] ∧ (o.pendingRequests = [] ∨ o.peers = []) := by
  have hnobody : o.peers = [] → o.inFlightRequests = [] := by
    intro hpeers
    refine eq_nil_iff_forall_not_mem.mpr fun a ha => ?_
    have hpeer := h.trusted (get?_of_mem hinv.nodup ha)
    rw [hpeers] at hpeer
    cases hpeer
  rcases poll_cases o rng now with ⟨toSend, pending, -, -, heq⟩ | ⟨deadline, heq, hidle⟩ |
    ⟨request, e, he, heq⟩
  · rw [heq] at hr
    have hpeers := insertRequest_timer_none hr
    exact ⟨hnobody hpeers, .inr hpeers⟩
  · cases heq.symm.trans hr
    obtain ⟨hempty, hidle⟩ := hidle rfl
    refine ⟨hempty, .inl (hidle.resolve_right fun hfull => ?_)⟩
    have := hinv.max_pos
    rw [hempty] at hfull
    exact absurd hfull (by simpa using this.ne')
  · -- the request that timed out was sent to a peer that can be asked again
    rw [heq] at hr
    have hpeer := noteTimeout_isSome e.peer now
      (h.trusted (get?_of_mem hinv.nodup he))
    have hpeers := insertRequest_timer_none hr
    rw [hpeers] at hpeer
    cases hpeer

/-- In every orderly run, each queued request is pending or in flight, once, until its last
response is handed on and then no more; no more requests are in flight than there may be; and a
poll waits for nothing only if nothing is in flight, and nothing is pending or nobody can be
asked. -/
theorem requests_accounted {maxParallelRequests requestTimeout : ℕ} {initPeers : List N}
    (hmax : 0 < maxParallelRequests)
    (h : Run Orderly (.new maxParallelRequests requestTimeout initPeers) log o) :
    (∀ k, (o.pendingRequests.map (·.key)).count k + (o.inFlightRequests.map (·.1.key)).count k
      = if k ∈ queued log ∧ k ∉ finished log then 1 else 0) ∧
    o.inFlightRequests.length ≤ o.maxParallelRequests ∧
    ∀ {rng : Chooser N} {now : ℕ} {o' : OutboundRequests N},
      o.poll rng now = .ok (o', .timer none) →
      o.inFlightRequests = [] ∧ (o.pendingRequests = [] ∨ o.peers = []) := by
  have hinv := h.inv (OutboundRequests.inv_new hmax)
  have hacc := h.accounted hmax
  refine ⟨fun k => ?_, hinv.bounded, hacc.poll_timer_none hinv⟩
  rw [← count_append]
  split
  next hk => exact count_eq_one_of_mem hacc.nodup ((hacc.mem_keys k).mpr hk)
  next hk => exact count_eq_zero_of_not_mem fun hmem => hk ((hacc.mem_keys k).mp hmem)

instance (log : Log N) (o : OutboundRequests N) (call : Call N) : Decidable (Orderly log o call) :=
  match call with
  | .queueRequest request => inferInstanceAs (Decidable (request.key ∉ _))
  | .handleResponse _ peer response =>
    inferInstanceAs (Decidable (∀ e ∈ o.reached peer response, e.InOrder response))
  | .handleBadVersion _ _ => inferInstanceAs (Decidable (_ → ∀ a ∈ o.inFlightRequests, _ → _))
  | .poll _ _ | .handleNotWhitelisted _ | .expandUpstreamPeers _ | .clearPrefixPeers
  | .doneSync => isTrue trivial

/-- Requests are distinct. -/
def DistinctRequests (log : Log N) : Call N → Prop
  | .queueRequest request => request.key ∉ queued log
  | _ => True

instance (log : Log N) (call : Call N) : Decidable (DistinctRequests log call) :=
  match call with
  | .queueRequest request => inferInstanceAs (Decidable (request.key ∉ _))
  | .handleResponse _ _ _ | .handleBadVersion _ _ | .poll _ _ | .handleNotWhitelisted _
  | .expandUpstreamPeers _ | .clearPrefixPeers | .doneSync => isTrue trivial

namespace Ideal

def nextRange : StateSyncRequest := { wholeRange with prefixValue := 1 }

/-- Two requests are sent to the one peer there is. -/
def twoSent : List (Call ℕ) :=
  [.queueRequest wholeRange, .queueRequest nextRange, .poll .first 0, .poll .first 0]

/-- The peer knows only an older version, and is asked again in that version. -/
def downgraded : Log ℕ × OutboundRequests ℕ :=
  (follow Orderly (twoSent ++ [.handleBadVersion 7 ⟨STATESYNC_VERSION_V0, STATESYNC_VERSION_V1⟩,
    .poll .first 1, .handleResponse 2 7
      (answer { wholeRange with version := STATESYNC_VERSION_V1 } 5 0 1)])
    ([], .new 2 10 [7])).get (by decide +kernel)

/-- A response after the last one. -/
def overrun : Log ℕ × OutboundRequests ℕ :=
  (follow (fun log _ => DistinctRequests log) (twoSent ++ [
    .handleResponse 1 7 (answer wholeRange 5 1 1), .handleResponse 1 7 (answer wholeRange 5 2 0),
    .handleResponse 1 7 (answer wholeRange 5 0 0)]) ([], .new 2 10 [7])).get (by decide +kernel)

/-- The peer claims to have newer versions only. -/
def upgraded : Log ℕ × OutboundRequests ℕ :=
  (follow (fun log _ => DistinctRequests log) (twoSent ++ [
    .handleBadVersion 7 ⟨⟨1, 3⟩, ⟨1, 3⟩⟩]) ([], .new 2 10 [7])).get (by decide +kernel)

end Ideal

open Statesync.Ideal

theorem requests_accounted_downgraded :
    finished downgraded.1 = [wholeRange.key] ∧
    ∀ k, (downgraded.2.pendingRequests.map (·.key)).count k +
      (downgraded.2.inFlightRequests.map (·.1.key)).count k
      = if k ∈ queued downgraded.1 ∧ k ∉ finished downgraded.1 then 1 else 0 :=
  ⟨by decide +kernel, (requests_accounted (by decide) (Run.nil.follow (Option.some_get _).symm)).1⟩

/-- A last response that is not the last to be handed on leaves its request in flight; and a peer
that was removed leaves requests in flight, which a poll then does not wait for. -/
theorem requests_stranded :
    (Run (fun log _ => DistinctRequests log) (.new 2 10 [7]) overrun.1 overrun.2 ∧
      finished overrun.1 = [wholeRange.key] ∧
      (overrun.2.inFlightRequests.map (·.1.key)).count wholeRange.key = 1) ∧
    Run (fun log _ => DistinctRequests log) (.new 2 10 [7]) upgraded.1 upgraded.2 ∧
      (upgraded.2.poll .first 10).toOption.map (fun r => (r.2, r.1.inFlightRequests.length))
        = some (.timer none, 1) :=
  ⟨⟨Run.nil.follow (Option.some_get _).symm, by decide +kernel, by decide +kernel⟩,
    Run.nil.follow (Option.some_get _).symm, by decide +kernel⟩

end MonadBft.Statesync
