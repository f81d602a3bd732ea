import MonadBft.Statesync.Requests

/-!
# A client that does not panic

A client takes for granted that the peer of a prefix is one of its peers, that a response that
waits for its turn comes once, and that the requests it has are for one target. The last of these
is up to the node, which queues requests for one target until that target is reached (`OneTarget`).
The first two are up to the peers. They hold, and then no call panics (`never_panics`), if no peer
of a prefix is removed and no response that waits is repeated (`Harmless`). A peer of a prefix that
says that it does not serve the node makes it panic, and so does a response that is sent twice
(`peer_panics`).
-/

set_option linter.unusedSectionVars false

namespace MonadBft.Statesync

open Assoc OutboundRequests

variable {N : Type} [DecidableEq N]

/-! ## Conditions on the calls -/

def targetAfter (target : Option UInt64) : Call N × Answer N → Option UInt64
  | (.queueRequest request, _) => some request.target
  | (.doneSync, _) => none
  | _ => target

/-- The target of the requests queued since the last target was reached. -/
def currentTarget (log : Log N) : Option UInt64 := log.foldl targetAfter none

/-- Requests are queued for one target, until nothing is left to do for it. -/
def OneTarget (log : Log N) (o : OutboundRequests N) : Call N → Prop
  | .queueRequest request =>
    currentTarget log = none ∨ currentTarget log = some request.target
  | .doneSync => o.isEmpty = true
  | _ => True

/-- No response that waits in an entry is repeated, and no peer of a prefix is removed. -/
def Harmless (log : Log N) (o : OutboundRequests N) (call : Call N) : Prop :=
  OneTarget log o call ∧ match call with
    | .handleResponse _ peer response => ∀ e ∈ o.reached peer response, ∀ a ∈ e.responses,
        a.2.nonce = response.nonce → a.1 ≠ response.responseIndex.toNat
    | .handleBadVersion peer badVersion =>
      incompatible badVersion = true → ∀ a ∈ o.prefixPeers, a.2 ≠ peer
    | .handleNotWhitelisted peer => ∀ a ∈ o.prefixPeers, a.2 ≠ peer
    | _ => True

/-! ## What is taken for granted -/

variable {o o' : OutboundRequests N} {log : Log N} {call : Call N} {answer : Answer N}
  {request : StateSyncRequest} {response : StateSyncResponse} {peer : N} {now : ℕ}
  {rng : Chooser N}

structure Steady (log : Log N) (o : OutboundRequests N) : Prop where
  prefixPeers : ∀ a ∈ o.prefixPeers, (Assoc.get? o.peers a.2).isSome = true
  target : ∀ k ∈ o.keys, currentTarget log = some k.target

theorem currentTarget_snoc (log : Log N) (call : Call N) (answer : Answer N) :
    currentTarget (log ++ [(call, answer)]) = targetAfter (currentTarget log) (call, answer) := by
  unfold currentTarget
  rw [List.foldl_append]
  rfl

theorem keys_of_isEmpty (h : o.isEmpty = true) : o.keys = [] := by
  unfold isEmpty at h
  rw [Bool.and_eq_true, List.isEmpty_iff, List.isEmpty_iff] at h
  unfold keys
  rw [h.1, h.2]
  rfl

/-- The peer of a prefix is set by a response from that peer. -/
theorem step_prefixPeers (hstep : o.step call = .ok (o', answer)) {a : UInt64 × N}
    (ha : a ∈ o'.prefixPeers) :
    a ∈ o.prefixPeers ∨ ∃ now response, call = .handleResponse now a.2 response := by
  cases step_cases hstep with
  | queueRequest => exact .inl ha
  | poll hr =>
    rw [(poll_peers a.2 hr).2] at ha
    exact .inl ha
  | handleResponse hr =>
    rw [(handleResponse_peers hr).2] at ha
    unfold noteResponse at ha
    split at ha
    · exact .inl ha
    · rcases mem_set.mp ha with rfl | ⟨ha, -⟩
      · exact .inr ⟨_, _, rfl⟩
      · exact .inl ha
  | other _ _ _ hfixed =>
    rw [(requeue_spec _ _).prefixPeers] at ha
    exact .inl (hfixed ha)

theorem Steady.step_target (h : Steady log o) (hkeyed : o.Keyed) (hC : OneTarget log o call)
    (hstep : o.step call = .ok (o', answer)) {k : StateSyncRequest} (hk : k ∈ o'.keys) :
    targetAfter (currentTarget log) (call, answer) = some k.target := by
  rcases step_keys hkeyed hstep with ⟨request, rfl, -, hkeys⟩ |
    ⟨now, peer, response, responses, rfl, -, -, hkeys⟩ | ⟨hcall, -, hkeys⟩
  · rcases List.mem_cons.mp (hkeys.mem_iff.mp hk) with rfl | hk
    · rfl
    have htarget := h.target k hk
    rcases hC with hnone | hsome
    · rw [hnone] at htarget
      cases htarget
    · exact hsome.symm.trans htarget
  · exact h.target k (hkeys.mem_iff.mpr (List.mem_cons_of_mem _ hk))
  · have hk := hkeys.mem_iff.mp hk
    cases call with
    | queueRequest request => exact absurd rfl (hcall request)
    | doneSync =>
      rw [keys_of_isEmpty hC] at hk
      cases hk
    | _ => exact h.target k hk

theorem Steady.step (h : Steady log o) (hkeyed : o.Keyed) (htrusted : o.fromTrusted call = true)
    (hC : Harmless log o call) (hstep : o.step call = .ok (o', answer)) :
    Steady (log ++ [(call, answer)]) o' where
  prefixPeers a ha := by
    rcases step_prefixPeers hstep ha with hold | ⟨now, response, rfl⟩
    · refine step_peers hstep (fun hprunes => ?_) (h.prefixPeers a hold)
      cases call with
      | handleBadVersion peer badVersion => exact hC.2 hprunes.2 a hold hprunes.1.symm
      | handleNotWhitelisted peer => exact hC.2 a hold hprunes.symm
      | _ => exact hprunes
    · exact step_peers hstep id htrusted
  target k hk := by
    rw [currentTarget_snoc]
    exact h.step_target hkeyed hC.1 hstep hk

theorem steady_new (maxParallelRequests requestTimeout : ℕ) (initPeers : List N) :
    Steady [] (.new maxParallelRequests requestTimeout initPeers) where
  prefixPeers _ ha := absurd ha List.not_mem_nil
  target _ hk := absurd hk List.not_mem_nil

theorem Run.steady {o₀ : OutboundRequests N} (h₀ : o₀.Inv) (hsteady : Steady [] o₀)
    (h : Run Harmless o₀ log o) : Steady log o := by
  induction h with
  | nil => exact hsteady
  | snoc hrun htrusted hC hstep ih => exact ih.step (hrun.inv h₀).toKeyed htrusted hC hstep

/-! ## No call panics -/

theorem Steady.queueRequest_ok (h : Steady log o) (hC : OneTarget log o (.queueRequest request)) :
    ∃ o', o.queueRequest request = .ok o' := by
  unfold queueRequest
  split
  · exact ⟨_, rfl⟩
  next current hcurrent =>
    have hk : current.key ∈ o.keys := by
      refine mem_keys.mpr ?_
      rcases Option.or_eq_some_iff.mp hcurrent with hhead | ⟨-, hhead⟩
      · exact .inl ⟨current, List.mem_of_head? hhead, rfl⟩
      · obtain ⟨a, ha, rfl⟩ := List.mem_map.mp (List.mem_of_head? hhead)
        exact .inr ⟨a, ha, rfl⟩
    have htarget := h.target _ hk
    rcases hC with hnone | hsome
    · rw [hnone] at htarget
      cases htarget
    · have heq : current.target = request.target := Option.some.inj (htarget.symm.trans hsome)
      exact ⟨_, if_pos heq⟩

/-- A request is sent if the peer of its prefix is still there. -/
theorem insertRequest_ok (h : ∀ peer, get? o.prefixPeers request.prefixValue = some peer →
      (get? o.peers peer).isSome = true) : ∃ r, o.insertRequest rng now request = .ok r := by
  rcases insertRequest_cases o rng now request with
    ⟨-, -, heq⟩ | ⟨peer, info, -, heq⟩ | ⟨peer, hfixed, hpeer, -⟩
  · exact ⟨_, heq⟩
  · exact ⟨_, heq⟩
  · have := h peer hfixed
    rw [hpeer] at this
    cases this

theorem Steady.poll_ok (h : Steady log o) (rng : Chooser N) (now : ℕ) :
    ∃ r, o.poll rng now = .ok r := by
  rcases poll_cases o rng now with ⟨toSend, pending, -, -, heq⟩ | ⟨deadline, heq, -⟩ |
    ⟨request, e, -, heq⟩
  · rw [heq]
    exact insertRequest_ok fun peer hpeer => h.prefixPeers _ (mem_of_get? hpeer)
  · exact ⟨_, heq⟩
  · rw [heq]
    refine insertRequest_ok fun peer hpeer => ?_
    rw [noteTimeout_eq] at hpeer
    exact noteTimeout_isSome e.peer now (h.prefixPeers _ (mem_of_get? hpeer))

/-- A response is applied if it does not wait there already. -/
theorem applyResponse_ok {e : InFlightRequest N} (now : ℕ) (hw : e.Waits request)
    (h : ∀ a ∈ e.responses, a.2.nonce = response.nonce → a.1 ≠ response.responseIndex.toNat) :
    ∃ r, e.applyResponse now response = .ok r := by
  rcases InFlightRequest.applyResponse_cases hw now response with ⟨-, -, heq⟩ |
    ⟨base, hbase, -, heq⟩
  · exact ⟨_, heq⟩
  · rw [heq]
    rcases Nat.lt_trichotomy response.responseIndex.toNat base.responseIndex with hlt | hnext | hgt
    · exact ⟨_, InFlightRequest.accept_of_lt hlt⟩
    · obtain ⟨run, rest, -, -, -, hacc⟩ := InFlightRequest.accept_of_eq hbase.waits now hnext
      exact ⟨_, hacc⟩
    · cases hget : get? base.responses response.responseIndex.toNat with
      | none => exact ⟨_, InFlightRequest.accept_of_gt hgt hget⟩
      | some y =>
        have hmem := mem_of_get? hget
        exact absurd rfl (h _ (hbase.responses _ hmem) (hbase.nonce _ hmem))

theorem handleResponse_ok (hinv : o.Inv)
    (h : ∀ e ∈ o.reached peer response, ∀ a ∈ e.responses,
      a.2.nonce = response.nonce → a.1 ≠ response.responseIndex.toNat) :
    ∃ r, o.handleResponse now peer response = .ok r := by
  rcases handleResponse_cases o now peer response with
    ⟨-, heq⟩ | ⟨e, hreached, he, heq⟩
  · exact ⟨_, heq⟩
  · obtain ⟨r, hr⟩ := applyResponse_ok now (hinv.waits he) (h e hreached)
    rw [heq, hr]
    dsimp only [bind, Except.bind]
    split
    · exact ⟨_, rfl⟩
    · exact ⟨_, rfl⟩

/-- In every run in which no response that waits is repeated and no peer of a prefix is removed,
no call panics. -/
theorem never_panics {maxParallelRequests requestTimeout : ℕ} {initPeers : List N}
    (hmax : 0 < maxParallelRequests)
    (h : Run Harmless (.new maxParallelRequests requestTimeout initPeers) log o)
    (hC : Harmless log o call) : ∃ r, o.step call = .ok r := by
  have hinv₀ : (OutboundRequests.new maxParallelRequests requestTimeout initPeers).Inv :=
    OutboundRequests.inv_new hmax
  have hsteady := h.steady hinv₀ (steady_new _ _ _)
  have hmap : ∀ {α β : Type} {x : Except OutboundPanic α} (f : α → β), (∃ r, x = .ok r) →
      ∃ r, f <$> x = .ok r := by
    rintro α β x f ⟨r, rfl⟩
    exact ⟨_, rfl⟩
  cases call with
  | queueRequest request => exact hmap _ (hsteady.queueRequest_ok hC.1)
  | poll rng now => exact hmap _ (hsteady.poll_ok rng now)
  | handleResponse now peer response => exact hmap _ (handleResponse_ok (h.inv hinv₀) hC.2)
  | _ => exact ⟨_, rfl⟩

instance (log : Log N) (o : OutboundRequests N) (call : Call N) :
    Decidable (OneTarget log o call) :=
  match call with
  | .queueRequest request =>
    inferInstanceAs (Decidable (_ ∨ currentTarget log = some request.target))
  | .doneSync => inferInstanceAs (Decidable (o.isEmpty = true))
  | .poll _ _ | .handleResponse _ _ _ | .handleBadVersion _ _ | .handleNotWhitelisted _
  | .expandUpstreamPeers _ | .clearPrefixPeers => isTrue trivial

instance (log : Log N) (o : OutboundRequests N) (call : Call N) : Decidable (Harmless log o call) :=
  match call with
  | .handleResponse _ peer response =>
    inferInstanceAs (Decidable (_ ∧ ∀ e ∈ o.reached peer response, ∀ a ∈ e.responses, _ → _))
  | .handleBadVersion _ _ => inferInstanceAs (Decidable (_ ∧ (_ → ∀ a ∈ o.prefixPeers, _)))
  | .handleNotWhitelisted _ => inferInstanceAs (Decidable (_ ∧ ∀ a ∈ o.prefixPeers, _))
  | .queueRequest request =>
    inferInstanceAs (Decidable (OneTarget log o (.queueRequest request) ∧ True))
  | .doneSync => inferInstanceAs (Decidable (OneTarget log o .doneSync ∧ True))
  | .poll _ _ | .expandUpstreamPeers _ | .clearPrefixPeers => isTrue ⟨trivial, trivial⟩

namespace Ideal

/-- The second response to a request arrives before the first. -/
def early : List (Call ℕ) :=
  [.queueRequest wholeRange, .poll .first 0, .handleResponse 1 7 (Ideal.answer wholeRange 5 1 1)]

def waiting : Log ℕ × OutboundRequests ℕ :=
  (follow Harmless early ([], .new 1 10 [7])).get (by decide +kernel)

def twice : Log ℕ × OutboundRequests ℕ :=
  (follow OneTarget early ([], .new 1 10 [7])).get (by decide +kernel)

/-- Then the peer does not serve the node any longer. -/
def refused : Log ℕ × OutboundRequests ℕ :=
  (follow OneTarget (early ++ [.handleNotWhitelisted 7]) ([], .new 1 10 [7])).get (by decide +kernel)

end Ideal

theorem never_panics_waiting :
    ∃ r, Ideal.waiting.2.step (.handleResponse 2 7 (Ideal.answer Ideal.wholeRange 5 2 0))
      = .ok r :=
  never_panics (by decide) (Run.nil.follow (Option.some_get _).symm) (by decide +kernel)

/-- The peer of a prefix that refuses to serve the node, and a response that is repeated. -/
theorem peer_panics :
    (Run OneTarget (.new 1 10 [7]) Ideal.refused.1 Ideal.refused.2 ∧
      Ideal.refused.2.poll .first 2 = .error .peerNotFound) ∧
    Run OneTarget (.new 1 10 [7]) Ideal.twice.1 Ideal.twice.2 ∧
      Ideal.twice.2.isTrustedPeer 7 = true ∧
      Ideal.twice.2.handleResponse 2 7 (Ideal.answer Ideal.wholeRange 5 1 1)
        = .error .duplicateResponseIndex :=
  ⟨⟨Run.nil.follow (Option.some_get _).symm, by decide +kernel⟩,
    Run.nil.follow (Option.some_get _).symm, by decide +kernel, by decide +kernel⟩

end MonadBft.Statesync
