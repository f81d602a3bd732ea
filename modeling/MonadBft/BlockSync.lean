import MonadBft.BlockTree
import MonadBft.Prog

/-!
# Block sync

A node asks for ranges of blocks it lacks, for consensus or for state sync, one of them at a
time (`selfRequestMode`). The headers of a range come first, from the node's own ledger or from a
peer, and then the bodies the headers name, a few at a time. A range whose bodies are all there
is handed over (`BlockSyncCommand.emit`). The node also answers requests of peers, from the
blocks at hand (`BlockSyncBlockCache`) and from its ledger.

Responses of peers are not trusted: headers are checked against the range they are for
(`verifyBlockHeaders`), and a body is filed under the id that is computed from it.

Hash maps are lists of pairs here, iterated in an order that a call is given (`HashOrder`). An
assertion of the source, and a counter that would go below zero, ends a call (`BlockSyncPanic`).
-/

namespace MonadBft

open Assoc

variable {T : Types}

def BLOCKSYNC_MAX_PAYLOAD_REQUESTS : ℕ := 10

/-- For whom the node asks. -/
inductive BlockSyncSelfRequester where
  | consensus
  | stateSync
  deriving DecidableEq

/-! ## Messages and commands -/

variable (T) in
inductive BlockSyncRequestMessage where
  | headers (blockRange : BlockRange T)
  | payload (payloadId : T.BlockBodyId)
  deriving DecidableEq

variable (T) in
inductive BlockSyncHeadersResponse where
  | found (blockRange : BlockRange T) (headers : List (ConsensusBlockHeader T))
  | notAvailable (blockRange : BlockRange T)

def BlockSyncHeadersResponse.getBlockRange : BlockSyncHeadersResponse T → BlockRange T
  | found blockRange _ => blockRange
  | notAvailable blockRange => blockRange

variable (T) in
inductive BlockSyncBodyResponse where
  | found (payload : T.BlockBody)
  | notAvailable (payloadId : T.BlockBodyId)

/-- The id of a body is computed from it. -/
def BlockSyncBodyResponse.getPayloadId (env : Env T) : BlockSyncBodyResponse T → T.BlockBodyId
  | found payload => env.getBodyId payload
  | notAvailable payloadId => payloadId

variable (T) in
inductive BlockSyncResponseMessage where
  | headersResponse (response : BlockSyncHeadersResponse T)
  | payloadResponse (response : BlockSyncBodyResponse T)

inductive BlockSyncCommand (env : Env T) where
  | sendRequest (peer : NodeId) (request : BlockSyncRequestMessage T)
  | scheduleTimeout (request : BlockSyncRequestMessage T)
  | resetTimeout (request : BlockSyncRequestMessage T)
  | sendResponse (peer : NodeId) (response : BlockSyncResponseMessage T)
  | fetchHeaders (blockRange : BlockRange T)
  | fetchPayload (payloadId : T.BlockBodyId)
  | emit (requester : BlockSyncSelfRequester) (blockRange : BlockRange T)
      (fullBlocks : List (ConsensusFullBlock env))

/-! ## The state -/

structure SelfRequest where
  requester : BlockSyncSelfRequester
  /-- None if the ledger is asked. -/
  peer : Option NodeId
  deriving DecidableEq

variable (T) in
/-- A range whose headers are there, with the bodies that are there. -/
structure SelfCompletedHeader where
  requester : BlockSyncSelfRequester
  blocks : List (ConsensusBlockHeader T × Option T.BlockBody)
  payloadCache : List (T.BlockBodyId × T.BlockBody)

variable (T) in
structure BlockSync where
  /-- What peers ask for and the ledger has to give, with the headers that follow it and are at
  hand already. -/
  headersRequests : List (BlockRange T × List (NodeId × List (ConsensusBlockHeader T)))
  payloadRequests : List (T.BlockBodyId × List NodeId)
  selfHeadersRequests : List (BlockRange T × SelfRequest)
  /-- None if the request has not been initiated. -/
  selfPayloadRequests : List (T.BlockBodyId × Option SelfRequest)
  selfPayloadRequestsInFlight : ℕ
  selfCompletedHeadersRequests : List (BlockRange T × SelfCompletedHeader T)
  selfRequestMode : BlockSyncSelfRequester
  overridePeers : List NodeId
  selfNodeId : NodeId

inductive BlockSyncPanic where
  /-- The validators of the current epoch are not known. -/
  | currentEpochMissing
  | noNodesToBlocksyncFrom
  | inFlightUnderflow
  | payloadIdMissing
  | requesterNotMode
  | lastOfNoHeaders
  | ledgerHeadersInvalid
  | completedRangeMissing
  | payloadMissing
  | bodyIdMismatch
  | cachedBlocksMismatch
  | headersNotLinked
  deriving DecidableEq

/-- Reached by the choice of a peer, which depends on the validators alone. -/
def BlockSyncPanic.ofPeers : BlockSyncPanic → Bool
  | currentEpochMissing | noNodesToBlocksyncFrom => true
  | _ => false

/-- The order in which hash maps are iterated. -/
structure HashOrder where
  order : {α : Type} → List α → List α
  perm : ∀ {α : Type} (l : List α), (order l).Perm l

/-- Each header names its predecessor as its parent. -/
def HeadersLinked (env : Env T) (headers : List (ConsensusBlockHeader T)) : Prop :=
  headers.IsChain fun parent header => env.getId parent = header.getParentId

/-- The blocks at hand, of the block tree or of the buffer of a node that syncs. A body is under
its own id, and the chain to a block is linked and ends in it. -/
structure BlockSyncBlockCache (env : Env T) where
  getPayload : T.BlockBodyId → Option T.BlockBody
  getParentBlockChain : T.BlockId → List (ConsensusBlockHeader T)
  getBodyId_of_getPayload : ∀ {id : T.BlockBodyId} {body : T.BlockBody},
    getPayload id = some body → env.getBodyId body = id
  getId_of_getLast? : ∀ {id : T.BlockId} {header : ConsensusBlockHeader T},
    (getParentBlockChain id).getLast? = some header → env.getId header = id
  linked : ∀ id, HeadersLinked env (getParentBlockChain id)

/-- What the choice of a peer depends on. -/
structure PeerSource where
  nodeId : NodeId
  /-- The validators of the current epoch, with their stakes. -/
  valSet : Option (List (NodeId × ℕ))
  secondaryRaptorcastPeers : List NodeId
  /-- A random peer of a list, and a random validator by stake. -/
  choose : List NodeId → Option NodeId
  chooseWeighted : List (NodeId × ℕ) → NodeId

/-- What a call has besides the state of block sync. -/
structure BlockSyncContext (env : Env T) where
  blockCache : BlockSyncBlockCache env
  hashOrder : HashOrder
  peers : PeerSource

namespace BlockSync

variable (T) in
def new (overridePeersIncSelf : List NodeId) (selfNodeId : NodeId) : BlockSync T where
  headersRequests := []
  payloadRequests := []
  selfHeadersRequests := []
  selfPayloadRequests := []
  selfPayloadRequestsInFlight := 0
  selfCompletedHeadersRequests := []
  selfRequestMode := .stateSync
  overridePeers := overridePeersIncSelf.filter fun peer => decide (peer ≠ selfNodeId)
  selfNodeId := selfNodeId

def clearSelfRequests (s : BlockSync T) : BlockSync T :=
  { s with
    selfHeadersRequests := []
    selfPayloadRequests := []
    selfPayloadRequestsInFlight := 0
    selfCompletedHeadersRequests := [] }

def selfRequestExists (s : BlockSync T) (blockRange : BlockRange T) : Bool :=
  (get? s.selfHeadersRequests blockRange).isSome ||
    (get? s.selfCompletedHeadersRequests blockRange).isSome

/-! ## Parts of the handlers -/

/-- Override peers first, then secondary peers for a node that is not a validator, then the
other validators. -/
def pickPeer (source : PeerSource) (overridePeers : List NodeId) :
    Except BlockSyncPanic (Option NodeId) :=
  if ¬ overridePeers.isEmpty then .ok (source.choose overridePeers)
  else
    match source.valSet with
    | none => .error .currentEpochMissing
    | some validators =>
      if source.nodeId ∉ validators.map Prod.fst then
        .ok (source.choose source.secondaryRaptorcastPeers)
      else
        let members := validators.filter fun validator => decide (validator.1 ≠ source.nodeId)
        if members.isEmpty then .error .noNodesToBlocksyncFrom
        else .ok (some (source.chooseWeighted members))

/-- The headers are as many as the range has, end in its last block and are linked. -/
def verifyBlockHeaders (env : Env T) (blockRange : BlockRange T)
    (headers : List (ConsensusBlockHeader T)) : Except BlockSyncPanic Bool :=
  if headers.length ≠ blockRange.numBlocks then .ok false
  else
    match headers.getLast? with
    | none => .error .lastOfNoHeaders
    | some last =>
      if blockRange.lastBlockId ≠ env.getId last then .ok false
      else
        .ok ((headers.zip headers.tail).all fun pair =>
          decide (env.getId pair.1 = pair.2.getParentId))

def getCachedPayload {env : Env T} (ctx : BlockSyncContext env) (s : BlockSync T)
    (payloadId : T.BlockBodyId) : Option T.BlockBody :=
  match ctx.blockCache.getPayload payloadId with
  | some payload => some payload
  | none => (ctx.hashOrder.order s.selfCompletedHeadersRequests).findSome? fun e =>
      get? e.2.payloadCache payloadId

/-- The body is put to the headers that name it and have none. -/
def SelfCompletedHeader.fill (payloadId : T.BlockBodyId) (payload : T.BlockBody)
    (completed : SelfCompletedHeader T) : SelfCompletedHeader T :=
  { completed with
    blocks := completed.blocks.map fun e =>
      if e.1.blockBodyId = payloadId ∧ e.2.isNone then (e.1, some payload) else e
    payloadCache :=
      if completed.blocks.any fun e => decide (e.1.blockBodyId = payloadId) && e.2.isNone then
        Assoc.set completed.payloadCache payloadId payload
      else completed.payloadCache }

/-- The request for a body is removed, and the body is put where it is missing. -/
def receivePayload (payloadId : T.BlockBodyId) (payload : T.BlockBody) (s : BlockSync T) :
    BlockSync T :=
  { s with
    selfPayloadRequests := Assoc.remove s.selfPayloadRequests payloadId
    selfCompletedHeadersRequests := s.selfCompletedHeadersRequests.map fun e =>
      (e.1, SelfCompletedHeader.fill payloadId payload e.2) }

variable (env : Env T)

abbrev BsProg (α : Type) := Prog (BlockSync T) BlockSyncPanic (BlockSyncCommand env) α

def decrementInFlight : BsProg env PUnit := do
  let s ← Prog.get
  if s.selfPayloadRequestsInFlight = 0 then Prog.fail .inFlightUnderflow
  else
    Prog.modify fun s => { s with selfPayloadRequestsInFlight := s.selfPayloadRequestsInFlight - 1 }

variable {env}

/-- A body that is at hand already need not be requested. -/
def useCachedPayload (ctx : BlockSyncContext env) (payloadId : T.BlockBodyId) :
    BsProg env PUnit := do
  let s ← Prog.get
  match getCachedPayload ctx s payloadId with
  | none => pure ⟨⟩
  | some payload =>
    match get? s.selfPayloadRequests payloadId with
    | none => Prog.fail .payloadIdMissing
    | some none => Prog.modify (receivePayload payloadId payload)
    | some (some request) => do
      decrementInFlight env
      Prog.modify (receivePayload payloadId payload)
      Prog.emit (if request.peer.isSome then [.resetTimeout (.payload payloadId)] else [])

def initiateRequests (ctx : BlockSyncContext env) : ℕ → BsProg env PUnit
  | 0 => pure ⟨⟩
  | n + 1 => do
    let s ← Prog.get
    match (ctx.hashOrder.order s.selfPayloadRequests).find? fun e => e.2.isNone with
    | none => pure ⟨⟩
    | some (payloadId, _) => do
      Prog.emit [.fetchPayload payloadId]
      Prog.modify fun s => { s with
        selfPayloadRequests := Assoc.set s.selfPayloadRequests payloadId
          (some ⟨s.selfRequestMode, none⟩)
        selfPayloadRequestsInFlight := s.selfPayloadRequestsInFlight + 1 }
      initiateRequests ctx n

def fullBlocks (env : Env T) (completed : SelfCompletedHeader T) :
    Except BlockSyncPanic (List (ConsensusFullBlock env)) :=
  completed.blocks.mapM fun e =>
    match e.2 with
    | none => .error .payloadMissing
    | some payload =>
      match ConsensusFullBlock.new? env e.1 payload with
      | none => .error .bodyIdMismatch
      | some block => .ok block

/-- Hand over a range that is complete. -/
def emitRange (env : Env T) (completedRange : BlockRange T) : BsProg env PUnit := do
  let s ← Prog.get
  match get? s.selfCompletedHeadersRequests completedRange with
  | none => Prog.fail .completedRangeMissing
  | some completed => do
    let blocks ← Prog.lift (fullBlocks env completed)
    Prog.modify fun s => { s with
      selfCompletedHeadersRequests := Assoc.remove s.selfCompletedHeadersRequests completedRange }
    Prog.emit [.emit completed.requester completedRange blocks]

def handleCompletedRanges (ctx : BlockSyncContext env) : BsProg env PUnit := do
  let s ← Prog.get
  let completedRanges := ((ctx.hashOrder.order s.selfCompletedHeadersRequests).filter fun e =>
    e.2.blocks.all fun block => block.2.isSome).map Prod.fst
  Prog.forEach (emitRange env) completedRanges

def tryInitiatePayloadRequestsForSelf (ctx : BlockSyncContext env) : BsProg env PUnit := do
  let s ← Prog.get
  Prog.forEach (useCachedPayload ctx)
    (ctx.hashOrder.order (s.selfPayloadRequests.map Prod.fst))
  let s ← Prog.get
  initiateRequests ctx (BLOCKSYNC_MAX_PAYLOAD_REQUESTS - s.selfPayloadRequestsInFlight)
  handleCompletedRanges ctx

/-! ## Responses for the node itself -/

/-- Ask a peer, or later if there is none. -/
def requestFromPeer (request : BlockSyncRequestMessage T) (peer : Option NodeId) :
    BsProg env PUnit :=
  match peer with
  | some peer => Prog.emit [.sendRequest peer request, .scheduleTimeout request]
  | none => Prog.emit [.scheduleTimeout request]

def requestHeaders (ctx : BlockSyncContext env) (blockRange : BlockRange T)
    (selfRequest : SelfRequest) : BsProg env PUnit := do
  let s ← Prog.get
  let peer ← Prog.lift (pickPeer ctx.peers s.overridePeers)
  Prog.modify fun s => { s with
    selfHeadersRequests := Assoc.set s.selfHeadersRequests blockRange { selfRequest with peer } }
  requestFromPeer (.headers blockRange) peer

def requestPayload (ctx : BlockSyncContext env) (payloadId : T.BlockBodyId)
    (selfRequest : SelfRequest) : BsProg env PUnit := do
  let s ← Prog.get
  let peer ← Prog.lift (pickPeer ctx.peers s.overridePeers)
  Prog.modify fun s => { s with
    selfPayloadRequests := Assoc.set s.selfPayloadRequests payloadId
      (some { selfRequest with peer }) }
  requestFromPeer (.payload payloadId) peer

/-- The bodies of headers are to be requested, unless they are already. -/
def addPayloadRequests (headers : List (ConsensusBlockHeader T))
    (requests : List (T.BlockBodyId × Option SelfRequest)) :
    List (T.BlockBodyId × Option SelfRequest) :=
  headers.foldl (fun requests header =>
    if (get? requests header.blockBodyId).isSome then requests
    else Assoc.set requests header.blockBodyId none) requests

/-- The headers of a range are there. -/
def completeHeaders (blockRange : BlockRange T) (headers : List (ConsensusBlockHeader T))
    (s : BlockSync T) : BlockSync T :=
  { s with
    selfHeadersRequests := Assoc.remove s.selfHeadersRequests blockRange
    selfPayloadRequests := addPayloadRequests headers s.selfPayloadRequests
    selfCompletedHeadersRequests := Assoc.set s.selfCompletedHeadersRequests blockRange
      ⟨s.selfRequestMode, headers.map fun header => (header, none), []⟩ }

/-- Use a response to a request for headers. -/
def useHeadersResponse (ctx : BlockSyncContext env) (sender : Option NodeId)
    (response : BlockSyncHeadersResponse T) (selfRequest : SelfRequest) : BsProg env PUnit :=
  match response with
  | .found blockRange headers => do
    let s ← Prog.get
    if selfRequest.requester ≠ s.selfRequestMode then Prog.fail .requesterNotMode
    else do
      let verified ← Prog.lift (verifyBlockHeaders env blockRange headers)
      if verified then do
        Prog.modify (completeHeaders blockRange headers)
        Prog.emit (if sender.isSome then [.resetTimeout (.headers blockRange)] else [])
      -- headers from the ledger do not fail, and those of a peer are asked for again later
      else if sender.isNone then Prog.fail .ledgerHeadersInvalid
      else pure ⟨⟩
  | .notAvailable blockRange =>
    if sender.isNone ∧ selfRequest.peer.isNone then requestHeaders ctx blockRange selfRequest
    else pure ⟨⟩

def handleHeadersResponseForSelf (ctx : BlockSyncContext env) (sender : Option NodeId)
    (response : BlockSyncHeadersResponse T) : BsProg env PUnit := do
  let s ← Prog.get
  match get? s.selfHeadersRequests response.getBlockRange with
  | none => pure ⟨⟩
  | some selfRequest => do
    useHeadersResponse ctx sender response selfRequest
    tryInitiatePayloadRequestsForSelf ctx

/-- Use a response to a request for a body that has been initiated. -/
def usePayloadResponse (ctx : BlockSyncContext env) (sender : Option NodeId)
    (response : BlockSyncBodyResponse T) (selfRequest : SelfRequest) : BsProg env PUnit :=
  match response with
  | .found payload => do
    let s ← Prog.get
    if selfRequest.requester ≠ s.selfRequestMode then Prog.fail .requesterNotMode
    else do
      decrementInFlight env
      Prog.emit (if sender.isSome then [.resetTimeout (.payload (env.getBodyId payload))] else [])
      Prog.modify (receivePayload (env.getBodyId payload) payload)
  | .notAvailable payloadId =>
    if sender.isNone ∧ selfRequest.peer.isNone then requestPayload ctx payloadId selfRequest
    else pure ⟨⟩

def handlePayloadResponseForSelf (ctx : BlockSyncContext env) (sender : Option NodeId)
    (response : BlockSyncBodyResponse T) : BsProg env PUnit := do
  let s ← Prog.get
  match get? s.selfPayloadRequests (response.getPayloadId env) with
  | some (some selfRequest) => do
    usePayloadResponse ctx sender response selfRequest
    handleCompletedRanges ctx
    tryInitiatePayloadRequestsForSelf ctx
  | _ => pure ⟨⟩

/-! ## Handlers -/

def handleSelfRequest (requester : BlockSyncSelfRequester) (blockRange : BlockRange T) :
    BsProg env PUnit := do
  if blockRange.numBlocks = 0 then pure ⟨⟩
  else do
    Prog.modify fun s =>
      if requester ≠ s.selfRequestMode then { s.clearSelfRequests with selfRequestMode := requester }
      else s
    let s ← Prog.get
    if s.selfRequestExists blockRange then pure ⟨⟩
    else do
      Prog.modify fun s => { s with
        selfHeadersRequests := Assoc.set s.selfHeadersRequests blockRange ⟨requester, none⟩ }
      Prog.emit [.fetchHeaders blockRange]

/-- A map after the cancellation of a range. -/
def cancelled {β : Type} (requesterOf : β → BlockSyncSelfRequester)
    (requester : BlockSyncSelfRequester) (blockRange : BlockRange T)
    (requests : List (BlockRange T × β)) : List (BlockRange T × β) :=
  match get? requests blockRange with
  | none => requests
  | some request =>
    if requesterOf request = requester then Assoc.remove requests blockRange else requests

/-- The requests for bodies stay: another range may need them. -/
def handleSelfCancelRequest (requester : BlockSyncSelfRequester) (blockRange : BlockRange T) :
    BsProg env PUnit :=
  Prog.modify fun s => { s with
    selfHeadersRequests :=
      cancelled SelfRequest.requester requester blockRange s.selfHeadersRequests
    selfCompletedHeadersRequests :=
      cancelled SelfCompletedHeader.requester requester blockRange
        s.selfCompletedHeadersRequests }

/-- The last of the headers, as many as the range has. -/
def cachedBlocks (ctx : BlockSyncContext env) (blockRange : BlockRange T) :
    List (ConsensusBlockHeader T) :=
  let chain := ctx.blockCache.getParentBlockChain blockRange.lastBlockId
  chain.drop (chain.length - blockRange.numBlocks)

def handlePeerRequest (ctx : BlockSyncContext env) (sender : NodeId)
    (request : BlockSyncRequestMessage T) : BsProg env PUnit :=
  match request with
  | .headers blockRange =>
    if blockRange.numBlocks = 0 then pure ⟨⟩
    else
      let cachedBlocks := cachedBlocks ctx blockRange
      if cachedBlocks.length = blockRange.numBlocks then
        if some blockRange.lastBlockId ≠ cachedBlocks.getLast?.map env.getId then
          Prog.fail .cachedBlocksMismatch
        else
          Prog.emit [.sendResponse sender (.headersResponse (.found blockRange cachedBlocks))]
      else do
        let lastBlockIdToFetch := (cachedBlocks.head?.map
          ConsensusBlockHeader.getParentId).getD blockRange.lastBlockId
        let ledgerFetchRange : BlockRange T :=
          ⟨lastBlockIdToFetch, blockRange.numBlocks - cachedBlocks.length⟩
        Prog.modify fun s => { s with
          headersRequests := Assoc.set s.headersRequests ledgerFetchRange
            (Assoc.insert ((get? s.headersRequests ledgerFetchRange).getD []) sender
              cachedBlocks) }
        Prog.emit [.fetchHeaders ledgerFetchRange]
  | .payload payloadId => do
    let s ← Prog.get
    match getCachedPayload ctx s payloadId with
    | some cachedPayload =>
      Prog.emit [.sendResponse sender (.payloadResponse (.found cachedPayload))]
    | none => do
      let requesters := (get? s.payloadRequests payloadId).getD []
      Prog.modify fun s => { s with
        payloadRequests := Assoc.set s.payloadRequests payloadId
          (if sender ∈ requesters then requesters
            else requesters.orderedInsert (· ≤ ·) sender) }
      Prog.emit [.fetchPayload payloadId]

/-- The answer to a peer: what the ledger has found, followed by the headers that were at hand
when the peer asked. -/
def replyHeaders (response : BlockSyncHeadersResponse T)
    (requester : NodeId × List (ConsensusBlockHeader T)) : BsProg env PUnit :=
  let blockRange := response.getBlockRange
  let cachedBlocks := requester.2
  let requestedBlockRange : BlockRange T :=
    ⟨(cachedBlocks.getLast?.map env.getId).getD blockRange.lastBlockId,
      blockRange.numBlocks + cachedBlocks.length⟩
  match response with
  | .found _ requestedBlocks =>
    let requestedBlocks := requestedBlocks ++ cachedBlocks
    if ¬ (requestedBlocks.zip requestedBlocks.tail).all fun pair =>
        decide (env.getId pair.1 = pair.2.getParentId) then
      Prog.fail .headersNotLinked
    else
      Prog.emit [.sendResponse requester.1
        (.headersResponse (.found requestedBlockRange requestedBlocks))]
  | .notAvailable _ =>
    Prog.emit [.sendResponse requester.1 (.headersResponse (.notAvailable requestedBlockRange))]

def handleLedgerResponse (ctx : BlockSyncContext env) (response : BlockSyncResponseMessage T) :
    BsProg env PUnit :=
  match response with
  | .headersResponse headersResponse => do
    let s ← Prog.get
    let requesters := (get? s.headersRequests headersResponse.getBlockRange).getD []
    Prog.modify fun s => { s with
      headersRequests := Assoc.remove s.headersRequests headersResponse.getBlockRange }
    Prog.forEach (replyHeaders headersResponse) requesters
    handleHeadersResponseForSelf ctx none headersResponse
  | .payloadResponse payloadResponse => do
    let s ← Prog.get
    let requesters := (get? s.payloadRequests (payloadResponse.getPayloadId env)).getD []
    Prog.modify fun s => { s with
      payloadRequests := Assoc.remove s.payloadRequests (payloadResponse.getPayloadId env) }
    Prog.emit (requesters.map fun requester =>
      .sendResponse requester (.payloadResponse payloadResponse))
    handlePayloadResponseForSelf ctx none payloadResponse

def handlePeerResponse (ctx : BlockSyncContext env) (sender : NodeId)
    (response : BlockSyncResponseMessage T) : BsProg env PUnit :=
  match response with
  | .headersResponse headersResponse =>
    handleHeadersResponseForSelf ctx (some sender) headersResponse
  | .payloadResponse payloadResponse =>
    handlePayloadResponseForSelf ctx (some sender) payloadResponse

def handleTimeout (ctx : BlockSyncContext env) (request : BlockSyncRequestMessage T) :
    BsProg env PUnit := do
  let s ← Prog.get
  match request with
  | .headers blockRange =>
    match get? s.selfHeadersRequests blockRange with
    | none => pure ⟨⟩
    | some selfRequest => requestHeaders ctx blockRange selfRequest
  | .payload payloadId =>
    match get? s.selfPayloadRequests payloadId with
    | some (some selfRequest) => requestPayload ctx payloadId selfRequest
    | _ => pure ⟨⟩

end BlockSync

end MonadBft
