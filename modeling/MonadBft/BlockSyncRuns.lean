import MonadBft.BlockSync
import MonadBft.Ideal
import MonadBft.TreeIndex

/-!
# The bookkeeping of block sync

Whatever peers send, block sync keeps its maps in step (`BlockSync.Inv`): the counter of
requests in flight is the number of initiated ones and at most
`BLOCKSYNC_MAX_PAYLOAD_REQUESTS`, a body that is missing is being requested, and what is kept of
a range are headers of that range. Requests are initiated as long as the counter allows
(`BlockSync.Saturated`).

The handlers of responses are programs that follow one discipline (`BlockSync.discipline`): they
open no range, and a range that they hand over was open, is no longer, and has exactly its blocks.
So a range is handed over only if it was requested (`BlockSync.blocksync_correct`).
-/

namespace MonadBft

open Assoc Assoc List Prog

variable {T : Types} {header : ConsensusBlockHeader T}

/-! ## The blocks at hand -/

namespace Tree

variable {env : Env T} {t t' : Tree env}

def getPayload (t : Tree env) (bodyId : T.BlockBodyId) : Option T.BlockBody :=
  (Assoc.get? t.payloads bodyId).map BlockBodyIndex.body

/-- At most `n` blocks that end in `id`. -/
def parentBlocks (t : Tree env) : ℕ → T.BlockId → List (ConsensusBlockHeader T)
  | 0, _ => []
  | n + 1, id =>
    match t.get? id with
    | none => []
    | some entry =>
      parentBlocks t n entry.validatedBlock.getParentId ++ [entry.validatedBlock.header]

/-- A chain has a block of the tree once. -/
def getParentBlockChain (t : Tree env) (id : T.BlockId) : List (ConsensusBlockHeader T) :=
  t.parentBlocks t.entries.length id

theorem getLast?_parentBlocks {n : ℕ} {id : T.BlockId}
    (h : (t.parentBlocks n id).getLast? = some header) : env.getId header = id := by
  cases n with
  | zero => cases h
  | succ n =>
    unfold parentBlocks at h
    split at h
    · cases h
    next entry hget =>
      rw [List.getLast?_concat] at h
      cases h
      exact (of_get? hget).2

theorem linked_parentBlocks (n : ℕ) (id : T.BlockId) : HeadersLinked env (t.parentBlocks n id) := by
  fun_induction parentBlocks t n id with
  | case3 n id entry hget ih =>
    refine isChain_append.mpr ⟨ih, .singleton _, fun last hlast header hheader => ?_⟩
    obtain rfl : entry.validatedBlock.header = header := by simpa using hheader
    exact getLast?_parentBlocks hlast
  | _ => exact .nil

/-- Bodies are under their own ids. -/
def BodiesMatch (t : Tree env) : Prop := ∀ e ∈ t.payloads, env.getBodyId e.2.body = e.1

end Tree

namespace BlockSyncBlockCache

variable {env : Env T}

/-- The block tree of a node that is live. -/
def blockTree (t : Tree env) (h : t.BodiesMatch) : BlockSyncBlockCache env where
  getPayload := t.getPayload
  getParentBlockChain := t.getParentBlockChain
  getBodyId_of_getPayload := by
    intro id body hbody
    obtain ⟨index, hindex, rfl⟩ := Option.map_eq_some_iff.mp hbody
    exact h _ (Assoc.mem_of_get? hindex)
  getId_of_getLast? := Tree.getLast?_parentBlocks
  linked := Tree.linked_parentBlocks _

/-- The full blocks that a node buffers while it syncs. -/
def blockBuffer (fullBlocks : List (ConsensusFullBlock env)) : BlockSyncBlockCache env where
  getPayload := get? (fullBlocks.map fun block => (block.getBodyId, block.body))
  getParentBlockChain _ := []
  getBodyId_of_getPayload := by
    intro id body hbody
    obtain ⟨block, -, heq⟩ := mem_map.mp (mem_of_get? hbody)
    obtain ⟨rfl, rfl⟩ := Prod.mk.inj heq
    exact block.body_matches
  getId_of_getLast? := nofun
  linked _ := .nil

end BlockSyncBlockCache

namespace BlockSync

variable {env : Env T} {s s' : BlockSync T} {r : BlockRange T} {cmds : List (BlockSyncCommand env)}
  {requester : BlockSyncSelfRequester} {completed : SelfCompletedHeader T} {request : SelfRequest}
  {response : BlockSyncHeadersResponse T} {sender : Option NodeId} {id : T.BlockBodyId}
  (ctx : BlockSyncContext env) {blockRange : BlockRange T}

/-! ## Ranges -/

structure IsRange (env : Env T) (blockRange : BlockRange T)
    (headers : List (ConsensusBlockHeader T)) : Prop where
  length : headers.length = blockRange.numBlocks
  last : headers.getLast?.map env.getId = some blockRange.lastBlockId
  linked : HeadersLinked env headers

/-- The check of neighbours is the check of the chain. -/
theorem linked_iff_zip {headers : List (ConsensusBlockHeader T)} :
    ((headers.zip headers.tail).all fun pair =>
      decide (env.getId pair.1 = pair.2.getParentId)) = true ↔ HeadersLinked env headers := by
  unfold HeadersLinked
  induction headers with
  | nil => simp
  | cons header headers ih =>
    cases headers with
    | nil => simp
    | cons header' headers =>
      rw [isChain_cons_cons, ← ih]
      simp

theorem verifyBlockHeaders_eq_ok_true {headers : List (ConsensusBlockHeader T)} :
    verifyBlockHeaders env blockRange headers = .ok true ↔ IsRange env blockRange headers := by
  unfold verifyBlockHeaders
  constructor
  · intro h
    split at h
    · cases h
    next hlength =>
      split at h
      · cases h
      next last hlast =>
        split at h
        · cases h
        next hid =>
          refine ⟨not_not.mp hlength, ?_, linked_iff_zip.mp (Except.ok.inj h)⟩
          rw [hlast, Option.map_some, ← not_not.mp hid]
  · rintro ⟨hlength, hlast, hlinked⟩
    obtain ⟨last, hlast', hid⟩ := Option.map_eq_some_iff.mp hlast
    rw [if_neg (not_not.mpr hlength), hlast']
    dsimp only
    rw [if_neg (not_not.mpr hid.symm), linked_iff_zip.mpr hlinked]

/-- The check comes to an end for a range that is not empty. -/
theorem verifyBlockHeaders_ok (env : Env T) (h : blockRange.numBlocks ≠ 0)
    (headers : List (ConsensusBlockHeader T)) :
    ∃ verified, verifyBlockHeaders env blockRange headers = .ok verified := by
  unfold verifyBlockHeaders
  split
  · exact ⟨_, rfl⟩
  next hlength =>
    split
    next hlast =>
      rw [List.getLast?_eq_none_iff.mp hlast] at hlength
      exact absurd (not_not.mp hlength).symm h
    · split
      · exact ⟨_, rfl⟩
      · exact ⟨_, rfl⟩

/-! ## The invariant -/

/-- What is kept of a range whose headers are there. -/
structure CompletedOk (env : Env T) (s : BlockSync T) (blockRange : BlockRange T)
    (completed : SelfCompletedHeader T) : Prop where
  requester : completed.requester = s.selfRequestMode
  range : IsRange env blockRange (completed.blocks.map Prod.fst)
  bodies : ∀ e ∈ completed.blocks, ∀ payload, e.2 = some payload →
    env.getBodyId payload = e.1.blockBodyId
  missing : ∀ e ∈ completed.blocks, e.2 = none →
    e.1.blockBodyId ∈ s.selfPayloadRequests.map Prod.fst
  cache : ∀ e ∈ completed.payloadCache, env.getBodyId e.2 = e.1

def initiated (requests : List (T.BlockBodyId × Option SelfRequest)) : ℕ :=
  requests.countP fun e => e.2.isSome

structure Inv (env : Env T) (s : BlockSync T) : Prop where
  headersNodup : (s.selfHeadersRequests.map Prod.fst).Nodup
  payloadsNodup : (s.selfPayloadRequests.map Prod.fst).Nodup
  completedNodup : (s.selfCompletedHeadersRequests.map Prod.fst).Nodup
  disjoint : ∀ r ∈ s.selfHeadersRequests.map Prod.fst,
    r ∉ s.selfCompletedHeadersRequests.map Prod.fst
  headers : ∀ e ∈ s.selfHeadersRequests, e.2.requester = s.selfRequestMode ∧ e.1.numBlocks ≠ 0
  payloads : ∀ e ∈ s.selfPayloadRequests, ∀ request, e.2 = some request →
    request.requester = s.selfRequestMode
  inFlight : s.selfPayloadRequestsInFlight = initiated s.selfPayloadRequests
  bounded : s.selfPayloadRequestsInFlight ≤ BLOCKSYNC_MAX_PAYLOAD_REQUESTS
  completed : ∀ e ∈ s.selfCompletedHeadersRequests, CompletedOk env s e.1 e.2
  -- what the ledger is asked for ends where the headers at hand begin
  peers : ∀ e ∈ s.headersRequests, ∀ p ∈ e.2, HeadersLinked env p.2 ∧
    ∀ header ∈ p.2.head?, header.getParentId = e.1.lastBlockId

/-- No request waits while another one may be initiated. -/
def Saturated (s : BlockSync T) : Prop :=
  s.selfPayloadRequestsInFlight < BLOCKSYNC_MAX_PAYLOAD_REQUESTS →
    ∀ e ∈ s.selfPayloadRequests, e.2.isSome

/-- The range is being requested. -/
def Open (s : BlockSync T) (r : BlockRange T) : Prop :=
  r ∈ s.selfHeadersRequests.map Prod.fst ∨ r ∈ s.selfCompletedHeadersRequests.map Prod.fst

/-! ## The discipline of responses -/

def emittedRanges (cmds : List (BlockSyncCommand env)) : List (BlockRange T) :=
  cmds.filterMap fun cmd =>
    match cmd with
    | .emit _ blockRange _ => some blockRange
    | _ => none

theorem mem_emittedRanges :
    r ∈ emittedRanges cmds ↔ ∃ requester blocks, .emit requester r blocks ∈ cmds := by
  unfold emittedRanges
  rw [mem_filterMap]
  constructor
  · rintro ⟨cmd, hmem, h⟩
    cases cmd <;> cases h
    exact ⟨_, _, hmem⟩
  · rintro ⟨requester, blocks, hmem⟩
    exact ⟨_, hmem, rfl⟩

/-- What the handling of a response does to the ranges. -/
structure Steps (env : Env T) (s : BlockSync T) (cmds : List (BlockSyncCommand env))
    (s' : BlockSync T) : Prop where
  inv : Inv env s'
  mode : s'.selfRequestMode = s.selfRequestMode
  opens : ∀ r, s'.Open r → s.Open r
  emits : ∀ requester r blocks, .emit requester r blocks ∈ cmds →
    requester = s.selfRequestMode ∧ s.Open r ∧ ¬ s'.Open r ∧
      IsRange env r (blocks.map ConsensusFullBlock.header)
  once : (emittedRanges cmds).Nodup

theorem Steps.append {cmds' : List (BlockSyncCommand env)} {s'' : BlockSync T}
    (h : Steps env s cmds s') (h' : Steps env s' cmds' s'') : Steps env s (cmds ++ cmds') s'' := by
  refine ⟨h'.inv, h'.mode.trans h.mode, fun r hr => h.opens r (h'.opens r hr),
    fun requester r blocks hmem => ?_, ?_⟩
  · rcases mem_append.mp hmem with hmem | hmem
    · obtain ⟨hmode, hopen, hclosed, hblocks⟩ := h.emits _ _ _ hmem
      exact ⟨hmode, hopen, fun hr => hclosed (h'.opens r hr), hblocks⟩
    · obtain ⟨hmode, hopen, hclosed, hblocks⟩ := h'.emits _ _ _ hmem
      exact ⟨hmode.trans h.mode, h.opens r hopen, hclosed, hblocks⟩
  · unfold emittedRanges
    rw [filterMap_append]
    refine nodup_append.mpr ⟨h.once, h'.once, fun r hr r' hr' heq => ?_⟩
    obtain ⟨requester, blocks, hmem⟩ := mem_emittedRanges.mp hr
    obtain ⟨requester', blocks', hmem'⟩ := mem_emittedRanges.mp hr'
    rw [← heq] at hmem'
    exact (h.emits _ _ _ hmem).2.2.1 (h'.emits _ _ _ hmem').2.1

/-- Commands other than the handing over of a range. -/
def NoEmit (cmds : List (BlockSyncCommand env)) : Prop :=
  ∀ requester r blocks, BlockSyncCommand.emit requester r blocks ∉ cmds

theorem emittedRanges_eq_nil (h : NoEmit cmds) : emittedRanges cmds = [] := by
  refine eq_nil_iff_forall_not_mem.mpr fun r hr => ?_
  obtain ⟨requester, blocks, hmem⟩ := mem_emittedRanges.mp hr
  exact h _ _ _ hmem

theorem noEmit_ite {c : Prop} [Decidable c] (h : NoEmit cmds) :
    NoEmit (if c then cmds else []) := by
  split
  · exact h
  · exact nofun

theorem Steps.of_noEmit (hinv : Inv env s') (hmode : s'.selfRequestMode = s.selfRequestMode)
    (hopens : ∀ r, s'.Open r → s.Open r) (hcmds : NoEmit cmds) : Steps env s cmds s' := by
  refine ⟨hinv, hmode, hopens, fun requester r blocks hmem => absurd hmem (hcmds _ _ _), ?_⟩
  rw [emittedRanges_eq_nil hcmds]
  exact .nil

variable (env) in
/-- Responses keep the invariant, and only the choice of a peer may fail. -/
def discipline : Discipline (BlockSync T) BlockSyncPanic (BlockSyncCommand env) where
  trace s cmds s' := Inv env s → Steps env s cmds s'
  inv := Inv env
  err p := p.ofPeers = true
  nil _ h := .of_noEmit h rfl (fun _ hr => hr) nofun
  append h h' hinv := (h hinv).append (h' (h hinv).inv)
  keeps hinv h := (h hinv).inv

/-! ## Bodies -/

/-- A request that is there, and the others. -/
theorem initiated_remove {l : List (T.BlockBodyId × Option SelfRequest)}
    {request : Option SelfRequest} (hnodup : (l.map Prod.fst).Nodup)
    (hget : get? l id = some request) :
    initiated l = initiated (Assoc.remove l id) + if request.isSome then 1 else 0 := by
  rw [initiated, (perm_cons_remove hnodup hget).countP_eq, countP_cons]
  rfl

section Payload

variable {id : T.BlockBodyId} {payload : T.BlockBody}

/-- Headers stay, and a body that is filled in is the one that the header names. -/
theorem mem_fill_blocks {e : ConsensusBlockHeader T × Option T.BlockBody}
    (h : e ∈ (SelfCompletedHeader.fill id payload completed).blocks) :
    (e ∈ completed.blocks ∧ (e.2 = none → e.1.blockBodyId ≠ id)) ∨
      (e.1.blockBodyId = id ∧ e.2 = some payload) := by
  obtain ⟨e', he', heq⟩ := mem_map.mp h
  split at heq
  next hmissing =>
    rw [← heq]
    exact .inr ⟨hmissing.1, rfl⟩
  next hother =>
    rw [← heq]
    refine .inl ⟨he', fun hnone hid => hother ⟨hid, ?_⟩⟩
    rw [hnone]
    rfl

theorem fill_headers (completed : SelfCompletedHeader T) :
    (SelfCompletedHeader.fill id payload completed).blocks.map Prod.fst =
      completed.blocks.map Prod.fst := by
  unfold SelfCompletedHeader.fill
  rw [map_map]
  refine map_congr_left fun e _ => ?_
  rw [Function.comp_apply]
  split <;> rfl

/-- The body is filled in, and its request is gone. -/
theorem CompletedOk.fill (h : CompletedOk env s r completed) (hid : env.getBodyId payload = id)
    (hmode : s'.selfRequestMode = s.selfRequestMode)
    (hrequests : s'.selfPayloadRequests = Assoc.remove s.selfPayloadRequests id) :
    CompletedOk env s' r (SelfCompletedHeader.fill id payload completed) := by
  refine ⟨h.requester.trans hmode.symm, ?_, fun e he body hbody => ?_, fun e he hnone => ?_,
    fun e he => ?_⟩
  · rw [fill_headers]
    exact h.range
  · rcases mem_fill_blocks he with ⟨he, -⟩ | ⟨hbodyId, hfilled⟩
    · exact h.bodies e he body hbody
    · rw [hfilled] at hbody
      rw [← Option.some.inj hbody, hid, hbodyId]
  · rcases mem_fill_blocks he with ⟨he, hne⟩ | ⟨-, hfilled⟩
    · rw [hrequests]
      exact mem_keys_remove.mpr ⟨h.missing e he hnone, hne hnone⟩
    · rw [hnone] at hfilled
      cases hfilled
  · unfold SelfCompletedHeader.fill at he
    split at he
    · rcases mem_set.mp he with rfl | ⟨he, -⟩
      · exact hid
      · exact h.cache e he
    · exact h.cache e he

def afterPayload (id : T.BlockBodyId) (payload : T.BlockBody) (request : Option SelfRequest)
    (s : BlockSync T) : BlockSync T :=
  receivePayload id payload
    { s with selfPayloadRequestsInFlight :=
        s.selfPayloadRequestsInFlight - if request.isSome then 1 else 0 }

theorem keys_completed_receive :
    (receivePayload id payload s).selfCompletedHeadersRequests.map Prod.fst =
      s.selfCompletedHeadersRequests.map Prod.fst := by
  simp [receivePayload]

section

variable {request : Option SelfRequest} (h : Inv env s) (hid : env.getBodyId payload = id)
  (hget : get? s.selfPayloadRequests id = some request)

include h hid hget

theorem Inv.afterPayload : Inv env (afterPayload id payload request s) := by
  have hcount := initiated_remove h.payloadsNodup hget
  have hinFlight := h.inFlight
  have hbounded := h.bounded
  refine ⟨h.headersNodup, nodup_remove h.payloadsNodup, ?_, ?_, h.headers, ?_, ?_, ?_, ?_, h.peers⟩
  · rw [BlockSync.afterPayload, keys_completed_receive]
    exact h.completedNodup
  · rw [BlockSync.afterPayload, keys_completed_receive]
    exact h.disjoint
  · exact fun e he => h.payloads e (mem_of_mem_filter he)
  · change s.selfPayloadRequestsInFlight - _ = initiated (Assoc.remove s.selfPayloadRequests id)
    omega
  · change s.selfPayloadRequestsInFlight - _ ≤ _
    omega
  · intro e he
    obtain ⟨e', he', rfl⟩ := mem_map.mp he
    exact (h.completed e' he').fill hid rfl rfl

theorem steps_afterPayload (hcmds : NoEmit cmds) :
    Steps env s cmds (afterPayload id payload request s) := by
  refine .of_noEmit (h.afterPayload hid hget) rfl (fun r hr => ?_) hcmds
  unfold Open at hr ⊢
  rw [afterPayload, keys_completed_receive] at hr
  exact hr

end

/-- An initiated request is counted. -/
theorem Inv.inFlight_pos (h : Inv env s)
    (hget : get? s.selfPayloadRequests id = some (some request)) :
    s.selfPayloadRequestsInFlight ≠ 0 := by
  have hcount := initiated_remove h.payloadsNodup hget
  have hinFlight := h.inFlight
  simp only [Option.isSome_some, if_true] at hcount
  omega

theorem decrementInFlight_run (h : s.selfPayloadRequestsInFlight ≠ 0) :
    decrementInFlight env s = .ok (⟨⟩, { s with
      selfPayloadRequestsInFlight := s.selfPayloadRequestsInFlight - 1 }, []) := by
  have hget : (Prog.get : BsProg env (BlockSync T)) s = .ok (s, s, []) := rfl
  exact run_bind hget (congrFun (if_neg h) s)

/-- A body at hand is the one that is asked for. -/
theorem Inv.getBodyId_cached {ctx : BlockSyncContext env} (h : Inv env s)
    (hcached : getCachedPayload ctx s id = some payload) : env.getBodyId payload = id := by
  unfold getCachedPayload at hcached
  split at hcached
  next body hbody =>
    cases hcached
    exact ctx.blockCache.getBodyId_of_getPayload hbody
  · obtain ⟨e, he, hget⟩ := exists_of_findSome?_eq_some hcached
    have hmem := (ctx.hashOrder.perm _).mem_iff.mp he
    exact (h.completed e hmem).cache _ (mem_of_get? hget)

theorem useCachedPayload_follows (hmem : id ∈ s.selfPayloadRequests.map Prod.fst) :
    Follows (discipline env) (useCachedPayload ctx id) s fun _ s' =>
      ∀ id' ∈ s.selfPayloadRequests.map Prod.fst, id' ≠ id →
        id' ∈ s'.selfPayloadRequests.map Prod.fst := by
  refine .of_inv fun hinv => .get_bind ?_
  cases hcached : getCachedPayload ctx s id with
  | none => exact .pure fun id' hid' _ => hid'
  | some payload =>
    have hid := hinv.getBodyId_cached hcached
    have hkept : ∀ request, ∀ id' ∈ s.selfPayloadRequests.map Prod.fst, id' ≠ id →
        id' ∈ (afterPayload id payload request s).selfPayloadRequests.map Prod.fst :=
      fun _ id' hid' hne => mem_keys_remove.mpr ⟨hid', hne⟩
    obtain ⟨request, hget⟩ := exists_get?_of_mem_keys hmem
    rw [hget]
    cases request with
    | none =>
      exact .of_eq rfl (fun _ => steps_afterPayload hinv hid hget nofun) (hkept none)
    | some request =>
      refine .of_eq (run_bind (decrementInFlight_run (hinv.inFlight_pos hget)) rfl)
        (fun _ => steps_afterPayload hinv hid hget ?_) (hkept (some request))
      exact noEmit_ite nofun

/-- The ids are those of requests, each once, so each is still there when its turn comes. -/
theorem useCachedPayloads_follows {ids : List T.BlockBodyId} (hnodup : ids.Nodup)
    (hmem : ∀ id ∈ ids, id ∈ s.selfPayloadRequests.map Prod.fst) :
    Follows (discipline env) (forEach (useCachedPayload ctx) ids) s
      fun _ _ => True := by
  induction ids generalizing s with
  | nil => exact .pure trivial
  | cons id ids ih =>
    obtain ⟨hnot, hnodup'⟩ := nodup_cons.mp hnodup
    refine .bind (useCachedPayload_follows ctx (hmem id (by simp))) fun _ s₁ _ _ hkept => ?_
    refine ih hnodup' fun id' hid' => hkept id' (hmem id' (by simp [hid'])) ?_
    rintro rfl
    exact hnot hid'

/-! ## Initiation -/

def afterInitiate (id : T.BlockBodyId) (s : BlockSync T) : BlockSync T :=
  { s with
    selfPayloadRequests := Assoc.set s.selfPayloadRequests id (some ⟨s.selfRequestMode, none⟩)
    selfPayloadRequestsInFlight := s.selfPayloadRequestsInFlight + 1 }

theorem CompletedOk.mono (h : CompletedOk env s r completed)
    (hmode : s'.selfRequestMode = s.selfRequestMode)
    (hrequests : ∀ id ∈ s.selfPayloadRequests.map Prod.fst,
      id ∈ s'.selfPayloadRequests.map Prod.fst) : CompletedOk env s' r completed :=
  ⟨h.requester.trans hmode.symm, h.range, h.bodies,
    fun e he hnone => hrequests _ (h.missing e he hnone), h.cache⟩

/-- A request is initiated, or sent to another peer. -/
theorem Inv.setPayload {request : Option SelfRequest} {request' : SelfRequest} {inFlight : ℕ}
    (h : Inv env s) (hget : get? s.selfPayloadRequests id = some request)
    (hrequester : request'.requester = s.selfRequestMode)
    (hinFlight : inFlight + (if request.isSome then 1 else 0) = s.selfPayloadRequestsInFlight + 1)
    (hbounded : inFlight ≤ BLOCKSYNC_MAX_PAYLOAD_REQUESTS) :
    Inv env { s with
      selfPayloadRequests := Assoc.set s.selfPayloadRequests id (some request')
      selfPayloadRequestsInFlight := inFlight } := by
  have hcount := initiated_remove h.payloadsNodup hget
  have hall := h.inFlight
  refine ⟨h.headersNodup, nodup_set h.payloadsNodup, h.completedNodup, h.disjoint, h.headers,
    fun e he request'' hrequest => ?_, ?_, hbounded, fun e he => ?_, h.peers⟩
  · rcases mem_set.mp he with rfl | ⟨he, -⟩
    · cases hrequest
      exact hrequester
    · exact h.payloads e he request'' hrequest
  · change inFlight = initiated ((id, some request') :: Assoc.remove s.selfPayloadRequests id)
    rw [initiated, countP_cons_of_pos rfl]
    unfold initiated at hcount hall
    omega
  · exact (h.completed e he).mono rfl fun id' hid' => mem_keys_set.mpr (.inr hid')

theorem initiateRequests_follows (n : ℕ)
    (hn : n = BLOCKSYNC_MAX_PAYLOAD_REQUESTS - s.selfPayloadRequestsInFlight) :
    Follows (discipline env) (initiateRequests ctx n) s fun _ s' => s'.Saturated := by
  induction n generalizing s with
  | zero =>
    refine .pure fun hlt => ?_
    omega
  | succ n ih =>
    refine .of_inv fun hinv => .get_bind ?_
    cases hfind : (ctx.hashOrder.order s.selfPayloadRequests).find? fun e => e.2.isNone with
    | none =>
      refine .pure fun _ e he => ?_
      have := List.find?_eq_none.mp hfind e ((ctx.hashOrder.perm _).mem_iff.mpr he)
      simpa [Option.isSome_iff_ne_none] using this
    | some found =>
      obtain ⟨id, request⟩ := found
      have hmem := (ctx.hashOrder.perm _).mem_iff.mp (mem_of_find?_eq_some hfind)
      obtain rfl : request = none := by simpa using List.find?_some hfind
      have hget := get?_of_mem hinv.payloadsNodup hmem
      have hlt : s.selfPayloadRequestsInFlight < BLOCKSYNC_MAX_PAYLOAD_REQUESTS := by omega
      refine .bind (.of_eq rfl (fun _ => .of_noEmit hinv rfl (fun _ hr => hr) nofun) rfl)
        fun _ s₁ _ _ (hs₁ : s₁ = s) => ?_
      rw [hs₁]
      refine .bind (.of_eq rfl (fun _ => .of_noEmit (hinv.setPayload hget rfl rfl hlt) rfl
        (fun _ hr => hr) nofun) rfl) fun _ s₂ _ _ (hs₂ : s₂ = afterInitiate id s) => ?_
      rw [hs₂]
      refine ih ?_
      change n = _ - (s.selfPayloadRequestsInFlight + 1)
      omega

end Payload

/-! ## Complete ranges -/

def SamePayloads (s s' : BlockSync T) : Prop :=
  s'.selfPayloadRequests = s.selfPayloadRequests ∧
    s'.selfPayloadRequestsInFlight = s.selfPayloadRequestsInFlight

theorem SamePayloads.saturated (h : SamePayloads s s') (hsat : s.Saturated) : s'.Saturated := by
  unfold Saturated at hsat ⊢
  rwa [h.1, h.2]

/-- All bodies are there. -/
def SelfCompletedHeader.Full (completed : SelfCompletedHeader T) : Prop :=
  ∀ e ∈ completed.blocks, e.2.isSome

theorem CompletedOk.fullBlocks_ok (h : CompletedOk env s r completed)
    (hfull : SelfCompletedHeader.Full completed) :
    ∃ blocks, fullBlocks env completed = .ok blocks ∧
      blocks.map ConsensusFullBlock.header = completed.blocks.map Prod.fst := by
  have hbodies := h.bodies
  unfold SelfCompletedHeader.Full at hfull
  unfold fullBlocks
  revert hfull hbodies
  generalize completed.blocks = es
  intro hfull hbodies
  induction es with
  | nil => exact ⟨[], rfl, rfl⟩
  | cons e es ih =>
    obtain ⟨blocks, hblocks, hheaders⟩ := ih
      (fun e' he' => hfull e' (mem_cons_of_mem _ he'))
      (fun e' he' => hbodies e' (mem_cons_of_mem _ he'))
    obtain ⟨header, body⟩ := e
    obtain ⟨payload, rfl⟩ := Option.isSome_iff_exists.mp (hfull _ mem_cons_self)
    have hid := hbodies _ mem_cons_self payload rfl
    refine ⟨⟨header, payload, hid⟩ :: blocks, ?_, ?_⟩
    · rw [mapM_cons, hblocks]
      simp only [ConsensusFullBlock.new?]
      rw [dif_pos hid]
      rfl
    · rw [map_cons, map_cons, hheaders]

theorem Inv.dropRanges {headers : List (BlockRange T × SelfRequest)}
    {completed : List (BlockRange T × SelfCompletedHeader T)} (h : Inv env s)
    (hheaders : headers.Sublist s.selfHeadersRequests)
    (hcompleted : completed.Sublist s.selfCompletedHeadersRequests) :
    Inv env { s with
      selfHeadersRequests := headers, selfCompletedHeadersRequests := completed } :=
  ⟨h.headersNodup.sublist (hheaders.map _), h.payloadsNodup,
    h.completedNodup.sublist (hcompleted.map _),
    fun r hr hr' => h.disjoint r ((hheaders.map _).subset hr) ((hcompleted.map _).subset hr'),
    fun e he => h.headers e (hheaders.subset he), h.payloads, h.inFlight, h.bounded,
    fun e he => (h.completed e (hcompleted.subset he)).mono rfl fun _ hid => hid, h.peers⟩

/-- A range is handed over. -/
theorem emitRange_follows (hget : get? s.selfCompletedHeadersRequests r = some completed)
    (hfull : SelfCompletedHeader.Full completed) :
    Follows (discipline env) (emitRange env r) s fun _ s' => s' = { s with
      selfCompletedHeadersRequests := Assoc.remove s.selfCompletedHeadersRequests r } := by
  refine .of_inv fun hinv => .get_bind ?_
  rw [hget]
  have hmem := mem_of_get? hget
  have hok := hinv.completed _ hmem
  obtain ⟨blocks, hblocks, hheaders⟩ := hok.fullBlocks_ok hfull
  dsimp only
  rw [hblocks]
  have hkey : r ∈ s.selfCompletedHeadersRequests.map Prod.fst := mem_map_of_mem hmem
  refine .of_eq rfl (fun _ => ⟨hinv.dropRanges (.refl _) filter_sublist, rfl, fun r' hr' => ?_,
    fun requester r' blocks' hemit => ?_, ?_⟩) rfl
  · exact hr'.imp_right fun hr'' => (mem_keys_remove.mp hr'').1
  · obtain ⟨rfl, rfl, rfl⟩ : requester = completed.requester ∧ r' = r ∧ blocks' = blocks := by
      simpa using hemit
    refine ⟨hok.requester, .inr hkey, fun hopen => ?_, ?_⟩
    · rcases hopen with hopen | hopen
      · exact hinv.disjoint _ hopen hkey
      · exact (mem_keys_remove.mp hopen).2 rfl
    · rw [hheaders]
      exact hok.range
  · exact nodup_singleton r

/-- Ranges that are there with all bodies, each once, are handed over one after the other. -/
theorem emitRanges_follows {ranges : List (BlockRange T)} (hnodup : ranges.Nodup)
    (hfull : ∀ r ∈ ranges, ∃ completed,
      get? s.selfCompletedHeadersRequests r = some completed ∧ SelfCompletedHeader.Full completed) :
    Follows (discipline env) (forEach (emitRange env) ranges) s fun _ s' =>
      SamePayloads s s' := by
  induction ranges generalizing s with
  | nil => exact .pure ⟨rfl, rfl⟩
  | cons r ranges ih =>
    obtain ⟨hnot, hnodup'⟩ := nodup_cons.mp hnodup
    obtain ⟨completed, hget, hcompleted⟩ := hfull r mem_cons_self
    refine .bind (emitRange_follows hget hcompleted) fun _ s₁ _ _ hs₁ => ?_
    subst hs₁
    refine (ih hnodup' fun r' hr' => ?_).mono fun _ s' h => ⟨h.1, h.2⟩
    obtain ⟨completed', hget', hcompleted'⟩ := hfull r' (mem_cons_of_mem _ hr')
    have hne : r' ≠ r := by
      rintro rfl
      exact hnot hr'
    exact ⟨completed', ((get?_remove r').trans (if_neg hne)).trans hget', hcompleted'⟩

theorem handleCompletedRanges_follows :
    Follows (discipline env) (handleCompletedRanges ctx) s fun _ s' => SamePayloads s s' := by
  refine .of_inv fun hinv => .get_bind (emitRanges_follows ?_ fun r hr => ?_)
  · have hperm := (ctx.hashOrder.perm s.selfCompletedHeadersRequests).map Prod.fst
    exact (hperm.nodup_iff.mpr hinv.completedNodup).sublist (filter_sublist.map _)
  · obtain ⟨e, he, rfl⟩ := mem_map.mp hr
    obtain ⟨he, hall⟩ := mem_filter.mp he
    have hmem := (ctx.hashOrder.perm _).mem_iff.mp he
    exact ⟨e.2, get?_of_mem hinv.completedNodup hmem, all_eq_true.mp hall⟩

theorem tryInitiate_follows :
    Follows (discipline env) (tryInitiatePayloadRequestsForSelf ctx) s fun _ s' =>
      s'.Saturated := by
  refine .of_inv fun hinv => .get_bind ?_
  have hperm := ctx.hashOrder.perm (s.selfPayloadRequests.map Prod.fst)
  refine .bind (useCachedPayloads_follows ctx (hperm.nodup_iff.mpr hinv.payloadsNodup)
    fun id hid => hperm.mem_iff.mp hid) fun _ s₁ _ _ _ => .get_bind ?_
  refine .bind (initiateRequests_follows ctx _ rfl) fun _ s₂ _ _ hsat => ?_
  exact (handleCompletedRanges_follows ctx).mono fun _ s' h => h.saturated hsat

/-! ## Responses -/

theorem Inv.setHeaders (h : Inv env s) (hclosed : r ∉ s.selfCompletedHeadersRequests.map Prod.fst)
    (hrequest : request.requester = s.selfRequestMode ∧ r.numBlocks ≠ 0) :
    Inv env { s with selfHeadersRequests := Assoc.set s.selfHeadersRequests r request } := by
  refine ⟨nodup_set h.headersNodup, h.payloadsNodup, h.completedNodup, fun r' hr' => ?_,
    fun e he => ?_, h.payloads, h.inFlight, h.bounded,
    fun e he => (h.completed e he).mono rfl fun _ hid => hid, h.peers⟩
  · rcases mem_keys_set.mp hr' with rfl | hr'
    · exact hclosed
    · exact h.disjoint r' hr'
  · rcases mem_set.mp he with rfl | ⟨he, -⟩
    · exact hrequest
    · exact h.headers e he

/-- The choice of a peer fails only for want of validators. -/
theorem pickPeer_error {source : PeerSource} {peers : List NodeId} {p : BlockSyncPanic}
    (h : pickPeer source peers = .error p) : p.ofPeers = true := by
  unfold pickPeer at h
  split at h
  · cases h
  split at h
  · cases h
    rfl
  split at h
  · cases h
  dsimp only at h
  split at h
  · cases h
    rfl
  · cases h

theorem requestFromPeer_run (env : Env T) (request : BlockSyncRequestMessage T) (peer : Option NodeId) :
    ∃ cmds : List (BlockSyncCommand env),
      (∀ s, requestFromPeer request peer s = .ok (⟨⟩, s, cmds)) ∧ NoEmit cmds := by
  cases peer with
  | none => exact ⟨_, fun _ => rfl, nofun⟩
  | some peer => exact ⟨_, fun _ => rfl, nofun⟩

theorem requestHeaders_follows (hget : get? s.selfHeadersRequests r = some request) :
    Follows (discipline env) (requestHeaders ctx r request) s fun _ s' =>
      SamePayloads s s' := by
  refine .of_inv fun hinv => .get_bind (.lift_bind (fun peer _ => ?_) fun p hp _ =>
    pickPeer_error hp)
  obtain ⟨cmds, hrun, hcmds⟩ := requestFromPeer_run env (.headers r) peer
  have hmem := mem_of_get? hget
  have hkey : r ∈ s.selfHeadersRequests.map Prod.fst := mem_map_of_mem hmem
  refine .of_eq (run_bind rfl (hrun _)) (fun _ => .of_noEmit
    (hinv.setHeaders (hinv.disjoint r hkey) (hinv.headers _ hmem)) rfl
    (fun r' hr' => hr'.imp_left fun hr' => ?_) hcmds) ⟨rfl, rfl⟩
  rcases mem_keys_set.mp hr' with rfl | hr'
  · exact hkey
  · exact hr'

theorem requestPayload_follows (hsat : s.Saturated)
    (hget : get? s.selfPayloadRequests id = some (some request)) :
    Follows (discipline env) (requestPayload ctx id request) s fun _ s' => s'.Saturated := by
  refine .of_inv fun hinv => .get_bind (.lift_bind (fun peer _ => ?_) fun p hp _ =>
    pickPeer_error hp)
  obtain ⟨cmds, hrun, hcmds⟩ := requestFromPeer_run env (.payload id) peer
  refine .of_eq (run_bind rfl (hrun _)) (fun _ => .of_noEmit (hinv.setPayload hget
    (hinv.payloads _ (mem_of_get? hget) request rfl) rfl hinv.bounded) rfl
    (fun r' hr' => hr') hcmds) fun hlt e he => ?_
  rcases mem_set.mp he with rfl | ⟨he, -⟩
  · rfl
  · exact hsat hlt e he

section Headers

variable {headers : List (ConsensusBlockHeader T)}
  {requests : List (T.BlockBodyId × Option SelfRequest)}

theorem mem_keys_addPayloadRequests :
    id ∈ (addPayloadRequests headers requests).map Prod.fst ↔
      id ∈ requests.map Prod.fst ∨ ∃ header ∈ headers, header.blockBodyId = id := by
  induction headers generalizing requests with
  | nil => simp [addPayloadRequests]
  | cons header headers ih =>
    unfold addPayloadRequests at ih ⊢
    rw [foldl_cons, ih, exists_mem_cons_iff, ← or_assoc]
    refine or_congr_left ?_
    split
    next hsome =>
      refine ⟨.inl, fun h => h.elim (fun h => h) fun hid => ?_⟩
      rw [← hid]
      exact isSome_get?.mp hsome
    · rw [mem_keys_set, or_comm, eq_comm]

/-- Requests are added that are not initiated. -/
theorem addPayloadRequests_induction {P : List (T.BlockBodyId × Option SelfRequest) → Prop}
    (h : P requests)
    (hset : ∀ requests id, P requests → get? requests id = none → P (Assoc.set requests id none)) :
    P (addPayloadRequests headers requests) := by
  refine List.foldlRecOn headers _ h fun requests h header _ => ?_
  split
  · exact h
  next hnone => exact hset _ _ h (Option.not_isSome_iff_eq_none.mp hnone)

theorem mem_addPayloadRequests : ∀ e ∈ addPayloadRequests headers requests,
    e ∈ requests ∨ e.2 = none := by
  refine addPayloadRequests_induction (P := fun added => ∀ e ∈ added, e ∈ requests ∨ e.2 = none)
    (fun e => .inl) fun _ _ ih _ e he => ?_
  rcases mem_set.mp he with rfl | ⟨he, -⟩
  · exact .inr rfl
  · exact ih e he

theorem nodup_addPayloadRequests (h : (requests.map Prod.fst).Nodup) :
    ((addPayloadRequests headers requests).map Prod.fst).Nodup :=
  addPayloadRequests_induction (P := fun added => (added.map Prod.fst).Nodup) h
    fun _ _ ih _ => nodup_set ih

theorem initiated_addPayloadRequests :
    initiated (addPayloadRequests headers requests) = initiated requests := by
  refine addPayloadRequests_induction (P := fun added => initiated added = initiated requests) rfl
    fun added id ih hnone => ?_
  change initiated ((id, none) :: Assoc.remove added id) = _
  rw [remove_eq_self hnone, initiated, countP_cons_of_neg (by simp)]
  exact ih

theorem Inv.completeHeaders (h : Inv env s) (hrange : IsRange env r headers) :
    Inv env (completeHeaders r headers s) := by
  refine ⟨nodup_remove h.headersNodup, nodup_addPayloadRequests h.payloadsNodup,
    nodup_set h.completedNodup, fun r' hr' hr'' => ?_,
    fun e he => h.headers e (mem_of_mem_filter he), fun e he request hrequest => ?_,
    h.inFlight.trans initiated_addPayloadRequests.symm, h.bounded, fun e he => ?_, h.peers⟩
  · obtain ⟨hr', hne⟩ := mem_keys_remove.mp hr'
    exact h.disjoint r' hr' ((mem_keys_set.mp hr'').resolve_left hne)
  · rcases mem_addPayloadRequests e he with he | hnone
    · exact h.payloads e he request hrequest
    · rw [hnone] at hrequest
      cases hrequest
  · rcases mem_set.mp he with rfl | ⟨he, -⟩
    · refine ⟨rfl, ?_, fun e he payload hpayload => ?_, fun e he _ => ?_, nofun⟩
      · rw [map_map, show Prod.fst ∘ _ = id from rfl, map_id]
        exact hrange
      · obtain ⟨header, -, rfl⟩ := mem_map.mp he
        cases hpayload
      · obtain ⟨header, hheader, rfl⟩ := mem_map.mp he
        exact mem_keys_addPayloadRequests.mpr (.inr ⟨header, hheader, rfl⟩)
    · exact (h.completed e he).mono rfl fun id hid => mem_keys_addPayloadRequests.mpr (.inl hid)

/-- The range stays open when its headers come. -/
theorem open_of_completeHeaders {r' : BlockRange T} (hr : r ∈ s.selfHeadersRequests.map Prod.fst)
    (h : (BlockSync.completeHeaders r headers s).Open r') : s.Open r' := by
  rcases h with h | h
  · exact .inl (mem_keys_remove.mp h).1
  · rcases mem_keys_set.mp h with rfl | h
    · exact .inl hr
    · exact .inr h

end Headers

/-- Headers that are found are those of the range. -/
def BlockSyncHeadersResponse.IsTrue (env : Env T) : BlockSyncHeadersResponse T → Prop
  | .found r headers => IsRange env r headers
  | .notAvailable _ => True

theorem useHeadersResponse_follows
    (hledger : sender = none → BlockSyncHeadersResponse.IsTrue env response)
    (hget : get? s.selfHeadersRequests response.getBlockRange = some request) :
    Follows (discipline env) (useHeadersResponse ctx sender response request) s
      fun _ _ => True := by
  cases response with
  | notAvailable r =>
    unfold useHeadersResponse
    dsimp only
    split
    · exact (requestHeaders_follows ctx hget).mono fun _ _ _ => trivial
    · exact .pure trivial
  | found r headers =>
    refine .of_inv fun hinv => .get_bind ?_
    have hmem := mem_of_get? hget
    obtain ⟨hmode, hnum⟩ := hinv.headers _ hmem
    rw [if_neg (not_not.mpr hmode)]
    refine .lift_bind (fun verified hverified => ?_) fun p hp _ => ?_
    · cases verified with
      | true =>
        have hrange := verifyBlockHeaders_eq_ok_true.mp hverified
        refine .of_eq (run_bind rfl rfl) (fun _ => .of_noEmit
          (hinv.completeHeaders hrange) rfl (fun r' hr' => open_of_completeHeaders
            (mem_map_of_mem hmem) hr') (noEmit_ite nofun)) trivial
      | false =>
        rw [if_neg Bool.false_ne_true]
        split
        next hnone =>
          have hrange := hledger (Option.isNone_iff_eq_none.mp hnone)
          rw [verifyBlockHeaders_eq_ok_true.mpr hrange] at hverified
          cases hverified
        · exact .pure trivial
    · obtain ⟨verified, hverified⟩ := verifyBlockHeaders_ok env hnum headers
      rw [show verifyBlockHeaders env r headers = _ from hverified] at hp
      cases hp

theorem handleHeadersResponseForSelf_follows (hsat : s.Saturated)
    (hledger : sender = none → BlockSyncHeadersResponse.IsTrue env response) :
    Follows (discipline env) (handleHeadersResponseForSelf ctx sender response) s
      fun _ s' => s'.Saturated := by
  refine .get_bind ?_
  cases hget : get? s.selfHeadersRequests response.getBlockRange with
  | none => exact .pure hsat
  | some request =>
    exact .bind (useHeadersResponse_follows ctx hledger hget) fun _ _ _ _ _ =>
      tryInitiate_follows ctx

theorem usePayloadResponse_follows {response : BlockSyncBodyResponse T} (hsat : s.Saturated)
    (hget : get? s.selfPayloadRequests (response.getPayloadId env) = some (some request)) :
    Follows (discipline env) (usePayloadResponse ctx sender response request) s
      fun _ _ => True := by
  cases response with
  | notAvailable id =>
    unfold usePayloadResponse
    dsimp only
    split
    · exact (requestPayload_follows ctx hsat hget).mono fun _ _ _ => trivial
    · exact .pure trivial
  | found payload =>
    refine .of_inv fun hinv => .get_bind ?_
    have hmode := hinv.payloads _ (mem_of_get? hget) request rfl
    rw [if_neg (not_not.mpr hmode)]
    refine .of_eq (run_bind (decrementInFlight_run (hinv.inFlight_pos hget)) rfl)
      (fun _ => steps_afterPayload hinv rfl hget ?_) trivial
    rw [append_nil]
    exact noEmit_ite nofun

theorem handlePayloadResponseForSelf_follows {response : BlockSyncBodyResponse T}
    (hsat : s.Saturated) :
    Follows (discipline env) (handlePayloadResponseForSelf ctx sender response) s
      fun _ s' => s'.Saturated := by
  refine .get_bind ?_
  cases hget : get? s.selfPayloadRequests (response.getPayloadId env) with
  | none => exact .pure hsat
  | some request =>
    cases request with
    | none => exact .pure hsat
    | some request =>
      refine .bind (usePayloadResponse_follows ctx hsat hget) fun _ _ _ _ _ => ?_
      exact .bind (handleCompletedRanges_follows ctx) fun _ _ _ _ _ => tryInitiate_follows ctx

/-! ## Requests of peers and the ledger -/

/-- The headers at hand that a range asks for end in the block that is named. -/
theorem getLast?_cachedBlocks (h : (cachedBlocks ctx r).getLast? = some header) :
    env.getId header = r.lastBlockId := by
  unfold cachedBlocks at h
  rw [List.getLast?_drop] at h
  split at h
  · cases h
  · exact ctx.blockCache.getId_of_getLast? h

/-- Only the requests of peers change. -/
theorem Inv.setPeers {requests : List (BlockRange T × List (NodeId × List (ConsensusBlockHeader T)))}
    {bodies : List (T.BlockBodyId × List NodeId)} (h : Inv env s)
    (hpeers : ∀ e ∈ requests, ∀ p ∈ e.2, HeadersLinked env p.2 ∧
      ∀ header ∈ p.2.head?, header.getParentId = e.1.lastBlockId) :
    Inv env { s with headersRequests := requests, payloadRequests := bodies } :=
  { h with
    completed := fun e he => (h.completed e he).mono rfl fun _ hid => hid
    peers := hpeers }

theorem Inv.peers_get? {p : NodeId × List (ConsensusBlockHeader T)} (h : Inv env s)
    (hp : p ∈ (get? s.headersRequests r).getD []) : HeadersLinked env p.2 ∧
      ∀ header ∈ p.2.head?, header.getParentId = r.lastBlockId := by
  cases hget : get? s.headersRequests r with
  | none =>
    rw [hget] at hp
    cases hp
  | some requesters =>
    rw [hget] at hp
    exact h.peers _ (mem_of_get? hget) p hp

theorem handlePeerRequest_follows {sender : NodeId} {request : BlockSyncRequestMessage T} :
    Follows (discipline env) (handlePeerRequest ctx sender request) s fun _ s' =>
      SamePayloads s s' := by
  refine .of_inv fun hinv => ?_
  cases request with
  | payload id =>
    refine .get_bind ?_
    split
    · exact .of_eq rfl (fun _ => .of_noEmit hinv rfl (fun _ hr => hr) nofun) ⟨rfl, rfl⟩
    · refine .of_eq (run_bind rfl rfl) (fun _ => .of_noEmit ?_ rfl (fun _ hr => hr) nofun)
        ⟨rfl, rfl⟩
      exact hinv.setPeers hinv.peers
  | headers r =>
    unfold handlePeerRequest
    dsimp only
    split
    · exact .pure ⟨rfl, rfl⟩
    next hnum =>
      split
      next hlength =>
        split
        next hmismatch =>
          -- as many as asked for, so not none, and the last one is that of the chain
          cases hlast : (cachedBlocks ctx r).getLast? with
          | none =>
            rw [List.getLast?_eq_none_iff.mp hlast] at hlength
            exact absurd hlength.symm hnum
          | some header =>
            rw [hlast, Option.map_some, getLast?_cachedBlocks ctx hlast] at hmismatch
            exact absurd rfl hmismatch
        · exact .of_eq rfl (fun _ => .of_noEmit hinv rfl (fun _ hr => hr) nofun) ⟨rfl, rfl⟩
      · refine .of_eq (run_bind rfl rfl) (fun _ => .of_noEmit ?_ rfl (fun _ hr => hr)
          nofun) ⟨rfl, rfl⟩
        refine hinv.setPeers fun e he p hp => ?_
        rcases mem_set.mp he with rfl | ⟨he, -⟩
        · rcases mem_insert.mp hp with rfl | ⟨hp, -⟩
          · refine ⟨(ctx.blockCache.linked r.lastBlockId).drop _, fun header hheader => ?_⟩
            rw [Option.mem_def.mp hheader]
            rfl
          · exact hinv.peers_get? hp
        · exact hinv.peers e he p hp

/-- What the ledger has found and the headers that follow are linked. -/
theorem replyHeaders_follows {requester : NodeId × List (ConsensusBlockHeader T)}
    (hledger : BlockSyncHeadersResponse.IsTrue env response)
    (hlinked : HeadersLinked env requester.2)
    (hparent : ∀ header ∈ requester.2.head?,
      header.getParentId = response.getBlockRange.lastBlockId) :
    Follows (discipline env) (replyHeaders response requester) s fun _ s' => s' = s := by
  refine .of_inv fun hinv => ?_
  unfold replyHeaders
  cases response with
  | notAvailable r =>
    exact .of_eq rfl (fun _ => .of_noEmit hinv rfl (fun _ hr => hr) nofun) rfl
  | found r headers =>
    have hall : HeadersLinked env (headers ++ requester.2) := by
      refine isChain_append.mpr ⟨hledger.linked, hlinked, fun last hlast next hnext => ?_⟩
      have hid : env.getId last = r.lastBlockId := by
        simpa [Option.mem_def.mp hlast] using hledger.last
      exact hid.trans (hparent next hnext).symm
    dsimp only
    rw [if_neg (not_not.mpr (linked_iff_zip.mpr hall))]
    exact .of_eq rfl (fun _ => .of_noEmit hinv rfl (fun _ hr => hr) nofun) rfl

/-- A response of the ledger is no lie. -/
def BlockSyncResponseMessage.IsTrue (env : Env T) : BlockSyncResponseMessage T → Prop
  | .headersResponse response => BlockSyncHeadersResponse.IsTrue env response
  | .payloadResponse _ => True

theorem handleLedgerResponse_follows {response : BlockSyncResponseMessage T} (hsat : s.Saturated)
    (hledger : BlockSyncResponseMessage.IsTrue env response) :
    Follows (discipline env) (handleLedgerResponse ctx response) s fun _ s' =>
      s'.Saturated := by
  refine .of_inv fun hinv => ?_
  cases response with
  | headersResponse response =>
    refine .get_bind (.bind (P := fun _ s' => SamePayloads s s') (.of_eq rfl
      (fun _ => .of_noEmit (hinv.setPeers fun e he => hinv.peers e (mem_of_mem_filter he)) rfl
        (fun _ hr => hr) nofun) ⟨rfl, rfl⟩) fun _ s₁ _ _ hs₁ => ?_)
    refine .bind (.forEach (I := fun s₂ => s₂ = s₁) _ rfl fun requester hrequester s₂ hs₂ => ?_)
      fun _ s₂ _ _ hs₂ => ?_
    · rw [hs₂]
      obtain ⟨hlinked, hparent⟩ := hinv.peers_get? hrequester
      exact replyHeaders_follows hledger hlinked hparent
    · rw [hs₂]
      exact handleHeadersResponseForSelf_follows ctx (hs₁.saturated hsat) fun _ => hledger
  | payloadResponse response =>
    refine .get_bind (.bind (P := fun _ s' => SamePayloads s s') (.of_eq rfl
      (fun _ => .of_noEmit (hinv.setPeers hinv.peers) rfl (fun _ hr => hr) nofun)
      ⟨rfl, rfl⟩) fun _ s₁ _ _ hs₁ => ?_)
    refine .bind (.of_eq rfl (fun hinv₁ => .of_noEmit hinv₁ rfl (fun _ hr => hr) ?_) rfl)
      fun _ s₂ _ _ (hs₂ : s₂ = s₁) => ?_
    · intro requester r blocks hmem
      obtain ⟨_, -, hcmd⟩ := mem_map.mp hmem
      cases hcmd
    · rw [hs₂]
      exact handlePayloadResponseForSelf_follows ctx (hs₁.saturated hsat)

theorem handlePeerResponse_follows {sender : NodeId} {response : BlockSyncResponseMessage T}
    (hsat : s.Saturated) :
    Follows (discipline env) (handlePeerResponse ctx sender response) s fun _ s' =>
      s'.Saturated := by
  cases response with
  | headersResponse response => exact handleHeadersResponseForSelf_follows ctx hsat nofun
  | payloadResponse response => exact handlePayloadResponseForSelf_follows ctx hsat

theorem handleTimeout_follows {request : BlockSyncRequestMessage T} (hsat : s.Saturated) :
    Follows (discipline env) (handleTimeout ctx request) s fun _ s' => s'.Saturated := by
  refine .get_bind ?_
  cases request with
  | headers r =>
    dsimp only
    cases hget : get? s.selfHeadersRequests r with
    | none => exact .pure hsat
    | some request => exact (requestHeaders_follows ctx hget).mono fun _ _ h => h.saturated hsat
  | payload id =>
    dsimp only
    cases hget : get? s.selfPayloadRequests id with
    | none => exact .pure hsat
    | some request =>
      cases request with
      | none => exact .pure hsat
      | some request => exact requestPayload_follows ctx hsat hget

/-! ## Calls -/

variable (T) in
inductive BlockSyncEvent where
  | selfRequest (requester : BlockSyncSelfRequester) (blockRange : BlockRange T)
  | selfCancelRequest (requester : BlockSyncSelfRequester) (blockRange : BlockRange T)
  | peerRequest (sender : NodeId) (request : BlockSyncRequestMessage T)
  | ledgerResponse (response : BlockSyncResponseMessage T)
  | peerResponse (sender : NodeId) (response : BlockSyncResponseMessage T)
  | timeout (request : BlockSyncRequestMessage T)

def handle (ctx : BlockSyncContext env) : BlockSyncEvent T → BsProg env PUnit
  | .selfRequest requester blockRange => handleSelfRequest requester blockRange
  | .selfCancelRequest requester blockRange => handleSelfCancelRequest requester blockRange
  | .peerRequest sender request => handlePeerRequest ctx sender request
  | .ledgerResponse response => handleLedgerResponse ctx response
  | .peerResponse sender response => handlePeerResponse ctx sender response
  | .timeout request => handleTimeout ctx request

/-- The ledger gives the chain it was asked for, or nothing. Peers may give anything. -/
def BlockSyncEvent.LedgerTrue (env : Env T) : BlockSyncEvent T → Prop
  | .ledgerResponse response => BlockSyncResponseMessage.IsTrue env response
  | _ => True

/-- The request of a range for a requester is over: it is cancelled, another requester takes
over, or the range is handed over. -/
def Ends (requester : BlockSyncSelfRequester) (r : BlockRange T)
    (call : BlockSyncEvent T × List (BlockSyncCommand env)) : Prop :=
  call.1 = .selfCancelRequest requester r ∨
    (∃ requester' r', call.1 = .selfRequest requester' r' ∧ requester' ≠ requester ∧
      r'.numBlocks ≠ 0) ∨
    r ∈ emittedRanges call.2

/-- What a call does to the ranges. -/
structure CallOk (env : Env T) (s : BlockSync T) (ev : BlockSyncEvent T)
    (cmds : List (BlockSyncCommand env)) (s' : BlockSync T) : Prop where
  inv : Inv env s'
  saturated : s'.Saturated
  opens : ∀ r, s'.Open r → ev = .selfRequest s'.selfRequestMode r ∨
    (s.Open r ∧ s'.selfRequestMode = s.selfRequestMode ∧ ¬ Ends s.selfRequestMode r (ev, cmds))
  emits : ∀ requester r blocks, .emit requester r blocks ∈ cmds →
    requester = s.selfRequestMode ∧ s.Open r ∧ IsRange env r (blocks.map ConsensusFullBlock.header)
  once : (emittedRanges cmds).Nodup

/-- A call that asks for nothing and cancels nothing. -/
theorem CallOk.of_follows {ev : BlockSyncEvent T} {x : BsProg env PUnit} (hinv : Inv env s)
    (hfollows : Follows (discipline env) x s fun _ s' => s'.Saturated)
    (hrequest : ∀ requester r, ev ≠ .selfRequest requester r)
    (hcancel : ∀ requester r, ev ≠ .selfCancelRequest requester r) :
    Sat x s (fun _ s' cmds => CallOk env s ev cmds s') fun p => p.ofPeers = true := by
  refine Sat.mono (hfollows hinv) (fun _ s' cmds ⟨htrace, hsat⟩ => ?_) fun _ hp => hp
  have hsteps := htrace hinv
  refine ⟨hsteps.inv, hsat, fun r hr => .inr ⟨hsteps.opens r hr, hsteps.mode, ?_⟩,
    fun requester r blocks hemit => ?_, hsteps.once⟩
  · rintro (hev | ⟨requester, r', hev, -⟩ | hemitted)
    · exact hcancel _ _ hev
    · exact hrequest _ _ hev
    · obtain ⟨requester, blocks, hemit⟩ := mem_emittedRanges.mp hemitted
      exact (hsteps.emits _ _ _ hemit).2.2.1 hr
  · obtain ⟨hmode, hopen, -, hblocks⟩ := hsteps.emits _ _ _ hemit
    exact ⟨hmode, hopen, hblocks⟩

/-- A call without an emission. -/
theorem CallOk.of_noEmit {ev : BlockSyncEvent T} (hinv : Inv env s') (hsat : s'.Saturated)
    (hopens : ∀ r, s'.Open r → ev = .selfRequest s'.selfRequestMode r ∨
      (s.Open r ∧ s'.selfRequestMode = s.selfRequestMode ∧
        ¬ Ends s.selfRequestMode r (ev, ([] : List (BlockSyncCommand env)))))
    (hcmds : NoEmit cmds) : CallOk env s ev cmds s' := by
  have hnil := emittedRanges_eq_nil hcmds
  refine ⟨hinv, hsat, fun r hr => ?_, fun _ _ _ hemit => absurd hemit (hcmds _ _ _), ?_⟩
  · unfold Ends at hopens ⊢
    rw [hnil]
    exact hopens r hr
  · rw [hnil]
    exact .nil

theorem Inv.clearSelfRequests (h : Inv env s) (requester : BlockSyncSelfRequester) :
    Inv env { s.clearSelfRequests with selfRequestMode := requester } :=
  ⟨.nil, .nil, .nil, nofun, nofun, nofun, rfl, Nat.zero_le _, nofun, h.peers⟩

theorem open_of_selfRequestExists : s.selfRequestExists r = true ↔ s.Open r := by
  unfold selfRequestExists Open
  rw [Bool.or_eq_true, isSome_get?, isSome_get?]

/-- The requester that asks is the one that is asked for from then on. -/
theorem requestRange_callOk (hnum : r.numBlocks ≠ 0) (hinv : Inv env s') (hsat : s'.Saturated)
    (hmode : s'.selfRequestMode = requester)
    (hopens : ∀ r', s'.Open r' → s.Open r' ∧ s'.selfRequestMode = s.selfRequestMode) :
    Sat (do
      let s ← Prog.get
      if s.selfRequestExists r then pure ⟨⟩
      else do
        Prog.modify fun s => { s with
          selfHeadersRequests := Assoc.set s.selfHeadersRequests r ⟨requester, none⟩ }
        emit [.fetchHeaders r] : BsProg env PUnit) s'
      (fun _ s'' cmds => CallOk env s (.selfRequest requester r) cmds s'')
      fun p => p.ofPeers = true := by
  have hkept : ∀ r', s'.Open r' → s.Open r' ∧ s'.selfRequestMode = s.selfRequestMode ∧
      ¬ Ends s.selfRequestMode r'
        (.selfRequest requester r, ([] : List (BlockSyncCommand env))) := by
    intro r' hr'
    obtain ⟨hopen, hsame⟩ := hopens r' hr'
    refine ⟨hopen, hsame, ?_⟩
    rintro (hev | ⟨requester', r'', hev, hne, -⟩ | hemitted)
    · cases hev
    · cases hev
      exact hne (hmode.symm.trans hsame)
    · cases hemitted
  refine Sat.get_bind ?_
  split
  · exact .of_eq rfl (.of_noEmit hinv hsat (fun r' hr' => .inr (hkept r' hr')) nofun)
  next hexists =>
    have hclosed : ¬ s'.Open r := fun h => hexists (open_of_selfRequestExists.mpr h)
    subst hmode
    refine .of_eq (run_bind rfl rfl) (.of_noEmit (hinv.setHeaders (fun hr => hclosed (.inr hr))
      ⟨rfl, hnum⟩) hsat (fun r' hr' => ?_) nofun)
    rcases hr' with hr' | hr'
    · rcases mem_keys_set.mp hr' with rfl | hr'
      · exact .inl rfl
      · exact .inr (hkept r' (.inl hr'))
    · exact .inr (hkept r' (.inr hr'))

theorem handleSelfRequest_callOk (hinv : Inv env s) (hsat : s.Saturated) :
    Sat (handleSelfRequest requester r : BsProg env PUnit) s
      (fun _ s' cmds => CallOk env s (.selfRequest requester r) cmds s')
      fun p => p.ofPeers = true := by
  unfold handleSelfRequest
  split
  next hzero =>
    refine .of_eq rfl (.of_noEmit hinv hsat (fun r' hr' => .inr ⟨hr', rfl, ?_⟩) nofun)
    rintro (hev | ⟨requester', r'', hev, -, hnum⟩ | hemitted)
    · cases hev
    · cases hev
      exact hnum hzero
    · cases hemitted
  next hnum =>
    refine .modify_bind ?_
    by_cases hmode : requester = s.selfRequestMode
    · rw [if_neg (not_not.mpr hmode)]
      exact requestRange_callOk hnum hinv hsat hmode.symm fun r' hr' => ⟨hr', rfl⟩
    · rw [if_pos hmode]
      refine requestRange_callOk hnum (hinv.clearSelfRequests requester) ?_ rfl ?_
      · exact nofun
      · rintro r' (hr' | hr') <;> cases hr'

/-- Entries are all of the present requester, so a cancellation removes the range if it is for that
requester, and nothing otherwise. -/
theorem cancelled_eq {β : Type} {l : List (BlockRange T × β)}
    {requesterOf : β → BlockSyncSelfRequester} {mode : BlockSyncSelfRequester}
    (h : ∀ e ∈ l, requesterOf e.2 = mode) :
    cancelled requesterOf requester r l = if requester = mode then Assoc.remove l r else l := by
  unfold cancelled
  split
  next hget => rw [remove_eq_self hget, ite_self]
  next v hget =>
    rw [h _ (mem_of_get? hget)]
    simp only [eq_comm]

theorem handleSelfCancelRequest_run (h : Inv env s) :
    (handleSelfCancelRequest requester r : BsProg env PUnit) s =
      .ok (⟨⟩, if requester = s.selfRequestMode then { s with
        selfHeadersRequests := Assoc.remove s.selfHeadersRequests r
        selfCompletedHeadersRequests := Assoc.remove s.selfCompletedHeadersRequests r } else s,
        []) := by
  unfold handleSelfCancelRequest Prog.modify
  dsimp only
  rw [cancelled_eq fun e he => (h.headers e he).1,
    cancelled_eq fun e he => (h.completed e he).requester]
  split
  · rfl
  · rfl

/-- A range that is cancelled for the present requester is open no longer. -/
theorem handleSelfCancelRequest_callOk (hinv : Inv env s) (hsat : s.Saturated) :
    Sat (handleSelfCancelRequest requester r : BsProg env PUnit) s
      (fun _ s' cmds => CallOk env s (.selfCancelRequest requester r) cmds s')
      fun p => p.ofPeers = true := by
  refine .of_eq (handleSelfCancelRequest_run hinv) ?_
  by_cases hmode : requester = s.selfRequestMode
  · rw [if_pos hmode]
    refine .of_noEmit (hinv.dropRanges filter_sublist filter_sublist) hsat (fun r' hr' => .inr ?_) nofun
    have hr : s.Open r' ∧ r' ≠ r := by
      rcases hr' with hr' | hr'
      · exact ⟨.inl (mem_keys_remove.mp hr').1, (mem_keys_remove.mp hr').2⟩
      · exact ⟨.inr (mem_keys_remove.mp hr').1, (mem_keys_remove.mp hr').2⟩
    refine ⟨hr.1, rfl, ?_⟩
    rintro (hev | ⟨_, _, hev, -⟩ | hemitted)
    · cases hev
      exact hr.2 rfl
    · cases hev
    · cases hemitted
  · rw [if_neg hmode]
    refine .of_noEmit hinv hsat (fun r' hr' => .inr ⟨hr', rfl, ?_⟩) nofun
    rintro (hev | ⟨_, _, hev, -⟩ | hemitted)
    · cases hev
      exact hmode rfl
    · cases hev
    · cases hemitted

theorem handle_callOk {ev : BlockSyncEvent T} (hinv : Inv env s) (hsat : s.Saturated)
    (hledger : ev.LedgerTrue env) :
    Sat (handle ctx ev) s (fun _ s' cmds => CallOk env s ev cmds s')
      fun p => p.ofPeers = true := by
  cases ev with
  | selfRequest requester r => exact handleSelfRequest_callOk hinv hsat
  | selfCancelRequest requester r => exact handleSelfCancelRequest_callOk hinv hsat
  | peerRequest sender request =>
    exact CallOk.of_follows hinv ((handlePeerRequest_follows ctx).mono fun _ _ h => h.saturated hsat)
      nofun nofun
  | ledgerResponse response =>
    exact CallOk.of_follows hinv (handleLedgerResponse_follows ctx hsat hledger) nofun nofun
  | peerResponse sender response =>
    exact CallOk.of_follows hinv (handlePeerResponse_follows ctx hsat) nofun nofun
  | timeout request => exact CallOk.of_follows hinv (handleTimeout_follows ctx hsat) nofun nofun

/-! ## Runs -/

variable (env) in
/-- A call, with the blocks at hand and the peers there are at the time. -/
def Call (s : BlockSync T) (log : List (BlockSyncEvent T × List (BlockSyncCommand env)))
    (s' : BlockSync T) : Prop :=
  ∃ (ctx : BlockSyncContext env) (ev : BlockSyncEvent T) (cmds : List (BlockSyncCommand env)),
    ev.LedgerTrue env ∧ handle ctx ev s = .ok (⟨⟩, s', cmds) ∧ log = [(ev, cmds)]

/-- The range was requested for the requester, and the request is not over. -/
def AskedFor (log : List (BlockSyncEvent T × List (BlockSyncCommand env)))
    (requester : BlockSyncSelfRequester) (r : BlockRange T) : Prop :=
  ∃ pre cmds post, log = pre ++ (.selfRequest requester r, cmds) :: post ∧
    ∀ call ∈ post, ¬ Ends requester r call

variable {log : List (BlockSyncEvent T × List (BlockSyncCommand env))}

theorem AskedFor.append {call : BlockSyncEvent T × List (BlockSyncCommand env)} (h : AskedFor log requester r)
    (hends : ¬ Ends requester r call) : AskedFor (log ++ [call]) requester r := by
  obtain ⟨pre, cmds, post, rfl, hpost⟩ := h
  refine ⟨pre, cmds, post ++ [call], by simp, fun call' hcall' => ?_⟩
  rcases mem_append.mp hcall' with hcall' | hcall'
  · exact hpost call' hcall'
  · rw [mem_singleton.mp hcall']
    exact hends

structure RunOk (env : Env T) (log : List (BlockSyncEvent T × List (BlockSyncCommand env)))
    (s : BlockSync T) : Prop where
  inv : Inv env s
  saturated : s.Saturated
  asked : ∀ r, s.Open r → AskedFor log s.selfRequestMode r

theorem runOk_new (overridePeers : List NodeId) (selfNodeId : NodeId) :
    RunOk env [] (new T overridePeers selfNodeId) where
  inv := ⟨.nil, .nil, .nil, nofun, nofun, nofun, rfl, Nat.zero_le _, nofun, nofun⟩
  saturated := nofun
  asked := by
    rintro r (hr | hr) <;> cases hr

theorem RunOk.call {call : List (BlockSyncEvent T × List (BlockSyncCommand env))}
    (h : RunOk env log s) (hcall : Call env s call s') : RunOk env (log ++ call) s' := by
  obtain ⟨ctx, ev, cmds, hledger, hrun, rfl⟩ := hcall
  have hok := sat_of_ok (handle_callOk ctx h.inv h.saturated hledger) hrun
  refine ⟨hok.inv, hok.saturated, fun r hr => ?_⟩
  rcases hok.opens r hr with rfl | ⟨hopen, hmode, hends⟩
  · exact ⟨log, cmds, [], rfl, nofun⟩
  · rw [hmode]
    exact (h.asked r hopen).append hends

theorem runOk_of_reach {overridePeers : List NodeId} {selfNodeId : NodeId}
    (h : Reach (Call env) (new T overridePeers selfNodeId) log s) : RunOk env log s :=
  h.history (runOk_new overridePeers selfNodeId) fun _ _ _ _ hlog hcall => hlog.call hcall

/-- Whatever peers answer, the counter is the number of initiated requests and within its bound, no
request waits without need, and a missing body is requested. Whatever is called next, it fails at
most for want of a peer to ask, and a range that it hands over has exactly its blocks, each with
the body its header names, and was requested for the present requester since it was last handed
over, cancelled, or another requester took over. -/
theorem blocksync_correct {overridePeers : List NodeId} {selfNodeId : NodeId}
    {log : List (BlockSyncEvent T × List (BlockSyncCommand env))}
    (hrun : Reach (Call env) (new T overridePeers selfNodeId) log s) :
    (s.selfPayloadRequestsInFlight = (s.selfPayloadRequests.filter fun e => e.2.isSome).length ∧
      s.selfPayloadRequestsInFlight ≤ BLOCKSYNC_MAX_PAYLOAD_REQUESTS ∧
      (s.selfPayloadRequestsInFlight < BLOCKSYNC_MAX_PAYLOAD_REQUESTS →
        ∀ e ∈ s.selfPayloadRequests, e.2.isSome)) ∧
    (∀ e ∈ s.selfCompletedHeadersRequests, ∀ block ∈ e.2.blocks, block.2 = none →
      block.1.blockBodyId ∈ s.selfPayloadRequests.map Prod.fst) ∧
    ∀ (ctx : BlockSyncContext env) (ev : BlockSyncEvent T), ev.LedgerTrue env →
      Prog.Sat (handle ctx ev) s
        (fun _ _ cmds => (emittedRanges cmds).Nodup ∧
          ∀ requester r blocks, .emit requester r blocks ∈ cmds → blocks.length = r.numBlocks ∧
            blocks.getLast?.map ConsensusFullBlock.getId = some r.lastBlockId ∧
            blocks.IsChain (fun parent block => parent.getId = block.getParentId) ∧
            (∀ block ∈ blocks, env.getBodyId block.body = block.header.blockBodyId) ∧
            requester = s.selfRequestMode ∧ AskedFor log requester r)
        fun panic => panic.ofPeers = true := by
  have hok := runOk_of_reach hrun
  refine ⟨⟨hok.inv.inFlight.trans countP_eq_length_filter, hok.inv.bounded, hok.saturated⟩,
    fun e he => (hok.inv.completed e he).missing, fun ctx ev hledger => ?_⟩
  refine (handle_callOk ctx hok.inv hok.saturated hledger).mono (fun _ s' cmds hcall => ?_)
    fun _ hp => hp
  refine ⟨hcall.once, fun requester r blocks hemit => ?_⟩
  obtain ⟨rfl, hopen, hlength, hlast, hlinked⟩ := hcall.emits _ _ _ hemit
  refine ⟨by simpa using hlength, ?_, ?_, fun block _ => block.body_matches, rfl, hok.asked r hopen⟩
  · rw [List.getLast?_map, Option.map_map] at hlast
    exact hlast
  · exact (isChain_map _).mp hlinked

end BlockSync

namespace Ideal

open BlockSync

def syncedParent : ConsensusBlockHeader types := (tip 0 2 genesisQc 1 7 none).blockHeader

def syncedBlock : ConsensusBlockHeader types :=
  (tip 0 3 (qc [0, 1, 2] (headerId syncedParent) 2 1) 2 8 none).blockHeader

def syncedRange : BlockRange types := ⟨headerId syncedBlock, 2⟩

/-- Nothing at hand, and one peer. -/
def syncContext : BlockSyncContext soleLeader where
  blockCache := .blockTree ⟨[], []⟩ nofun
  hashOrder := ⟨fun l => l, fun l => .refl l⟩
  peers :=
    { nodeId := 0
      valSet := none
      secondaryRaptorcastPeers := []
      choose := List.head?
      chooseWeighted := fun _ => 1 }

/-- A peer sends the headers and one of two bodies, then the other one. -/
theorem blocksync_correct_syncedRange : ∃ log s,
    Reach (Call soleLeader) (new types [1] 0) log s ∧
      s.selfPayloadRequestsInFlight = 1 ∧ AskedFor log .consensus syncedRange ∧
      ∃ s' reset blocks, handle syncContext (.peerResponse 1 (.payloadResponse (.found 8))) s =
        .ok (⟨⟩, s', [reset, .emit .consensus syncedRange blocks]) ∧ blocks.length = 2 := by
  have hrequest : Call soleLeader (new types [1] 0) _ _ :=
    ⟨syncContext, .selfRequest .consensus syncedRange, _, trivial, rfl, rfl⟩
  have hheaders := (Reach.single hrequest).snoc ⟨syncContext, .peerResponse 1 (.headersResponse
    (.found syncedRange [syncedParent, syncedBlock])), _, trivial, rfl, rfl⟩
  have hrun := hheaders.snoc
    ⟨syncContext, .peerResponse 1 (.payloadResponse (.found 7)), _, trivial, rfl, rfl⟩
  obtain ⟨-, -, hnext⟩ := blocksync_correct hrun
  have hsat := hnext syncContext (.peerResponse 1 (.payloadResponse (.found 8))) trivial
  have hemit := Prog.sat_of_ok hsat rfl
  obtain ⟨hlength, -, -, -, -, hasked⟩ := hemit.2 .consensus syncedRange _
    (mem_cons_of_mem _ mem_cons_self)
  exact ⟨_, _, hrun, rfl, hasked, _, _, _, rfl, hlength⟩

end Ideal

end MonadBft
