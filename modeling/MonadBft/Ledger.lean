import Mathlib.Data.List.Chain
import MonadBft.Assoc
import MonadBft.BlockPersist

/-!
# The ledger

The ledger writes blocks to files, caches the latest rounds in memory and answers block sync
requests (`MonadBlockFileLedger`). Blocks are cached by id and bodies by the hash of their
contents, while eviction goes by rounds: the index has one block per round, and a block
that leaves the index takes its body out of the cache. Once the index is full, files are
not read any more.

`LedgerRun.serves` says what can be fetched, as long as no two cached blocks have one body, and
`LedgerRun.shared_body_lost` what happens otherwise.
-/

namespace MonadBft

open Assoc FileBlockPersist FileSystem Function List

/-- Headers and bodies with what the ledger reads of a header. -/
structure BlockKind extends Stored where
  getParentId : Header → HeaderId
  blockBodyId : Header → BodyId
  blockRound : Header → ℕ
  seqNum : Header → ℕ

/-- A header with the body it names. -/
structure FullBlock (B : BlockKind) where
  header : B.Header
  body : B.Body
  body_matches : B.getBodyId body = B.blockBodyId header

namespace FullBlock

variable {B : BlockKind} (b : FullBlock B)

def getId : B.HeaderId := B.getId b.header

def getBodyId : B.BodyId := B.blockBodyId b.header

def getBlockRound : ℕ := B.blockRound b.header

def getSeqNum : ℕ := B.seqNum b.header

end FullBlock

variable {B : BlockKind}

variable (B) in
/-- How far a block has come. -/
inductive OptimisticCommit where
  | proposed (block : FullBlock B) (isCanonical : Bool)
  | voted (block : FullBlock B)
  | finalized (block : FullBlock B)

variable (B) in
/-- The blocks of the latest rounds. -/
structure BlockCache where
  blockCacheSize : ℕ
  blockCache : List (B.HeaderId × FullBlock B)
  blockPayloadCache : List (B.BodyId × B.Body)
  /-- By round, in the order of rounds. -/
  blockCacheIndex : List (ℕ × B.HeaderId × B.BodyId)

namespace BlockCache

variable (l : BlockCache B)

def isCacheHydrated : Bool := decide (l.blockCacheSize ≤ l.blockCacheIndex.length)

/-- Take a block and its body out of the cache. -/
def dropBlock (ids : B.HeaderId × B.BodyId) : BlockCache B :=
  { l with
    blockCache := Assoc.remove l.blockCache ids.1
    blockPayloadCache := Assoc.remove l.blockPayloadCache ids.2 }

/-- Put a block in the index, in the place of the one of its round. -/
def addToIndex (block : FullBlock B) : BlockCache B :=
  let l' := { l with
    blockCacheIndex :=
      Assoc.insert l.blockCacheIndex block.getBlockRound (block.getId, block.getBodyId) }
  match get? l.blockCacheIndex block.getBlockRound with
  | some ids => l'.dropBlock ids
  | none => l'

/-- Drop the block of the lowest round if there are too many. -/
def evict : BlockCache B :=
  if l.blockCacheSize < l.blockCacheIndex.length then
    match l.blockCacheIndex with
    | [] => l
    | (_, ids) :: index => dropBlock { l with blockCacheIndex := index } ids
  else l

/-- The block goes into the cache at the end, in case its body was dropped before. -/
def addBlock (block : FullBlock B) : BlockCache B :=
  { l with
    blockPayloadCache := Assoc.set l.blockPayloadCache block.getBodyId block.body
    blockCache := Assoc.set l.blockCache block.getId block }

def updateCache (block : FullBlock B) : BlockCache B := ((l.addToIndex block).evict).addBlock block

end BlockCache

variable (B) in
structure MonadBlockFileLedger extends BlockCache B where
  bftBlockPersist : LedgerDir B.toStored
  /-- Sequence number and round of the last finalized block. -/
  lastCommit : Option (ℕ × ℕ)

/-- The longest range of headers that is served. -/
def BLOCKSYNC_MAX_NUM_HEADERS : ℕ := 800

namespace MonadBlockFileLedger

def new (d : LedgerDir B.toStored) : MonadBlockFileLedger B where
  bftBlockPersist := d
  lastCommit := none
  blockCacheSize := 1000
  blockCache := []
  blockPayloadCache := []
  blockCacheIndex := []

variable (l : MonadBlockFileLedger B)

/-- A call on the directory, which has to succeed. -/
def persist (call : PersistCall B.toStored) : Except IoError (MonadBlockFileLedger B) :=
  match call.run l.bftBlockPersist with
  | (.ok (), d) => .ok { l with bftBlockPersist := d }
  | (.error e, _) => .error e

/-- The body is written first, so that a header always points to a body that exists. -/
def writeBftBlock (block : FullBlock B) : Except IoError (MonadBlockFileLedger B) := do
  let l ← l.persist (.writeBftBody block.body)
  l.persist (.writeBftHeader block.header)

def updateCache (block : FullBlock B) : MonadBlockFileLedger B :=
  { l with toBlockCache := l.toBlockCache.updateCache block }

/-- `LedgerCommand::LedgerCommit`. -/
def commit : OptimisticCommit B → Except IoError (MonadBlockFileLedger B)
  | .proposed block isCanonical => do
    let l ← l.writeBftBlock block
    let l ← if isCanonical then l.persist (.updateHead .proposed block.getId) else .ok l
    .ok (l.updateCache block)
  | .voted block => (l.updateCache block).persist (.updateHead .voted block.getId)
  | .finalized block =>
    { l with lastCommit := some (block.getSeqNum, block.getBlockRound) }.persist
      (.updateHead .finalized block.getId)

/-! ## Fetching -/

/-- The header of a block, from the cache or, until the cache is full, from a file. -/
def getHeader? (id : B.HeaderId) : Option B.Header :=
  match get? l.blockCache id with
  | some block => some block.header
  | none => if l.isCacheHydrated then none else (readBftHeader l.bftBlockPersist id).toOption

/-- The loop of `ledger_fetch_headers`: collect headers by their parents. -/
def fetchHeaders : ℕ → B.HeaderId → List B.Header → Option (List B.Header)
  | 0, _, headers => some headers
  | n + 1, nextBlockId, headers =>
    match l.getHeader? nextBlockId with
    | none => none
    | some header => fetchHeaders n (B.getParentId header) (header :: headers)

/-- The headers of a range, if they are available. -/
def ledgerFetchHeaders (lastBlockId : B.HeaderId) (numBlocks : ℕ) : Option (List B.Header) :=
  if BLOCKSYNC_MAX_NUM_HEADERS < numBlocks then none
  else l.fetchHeaders numBlocks lastBlockId []

/-- A body, if it is available. -/
def ledgerFetchPayload (payloadId : B.BodyId) : Option B.Body :=
  match get? l.blockPayloadCache payloadId with
  | some body => some body
  | none => if l.isCacheHydrated then none else (readBftBody l.bftBlockPersist payloadId).toOption

end MonadBlockFileLedger

/-! ## Runs -/

/-- The cache after a commit. -/
def OptimisticCommit.updateCache (l : BlockCache B) : OptimisticCommit B → BlockCache B
  | proposed block _ => l.updateCache block
  | voted block => l.updateCache block
  | finalized _ => l

/-- The directory after a commit. -/
def OptimisticCommit.effect (d : LedgerDir B.toStored) : OptimisticCommit B → LedgerDir B.toStored
  | proposed block isCanonical =>
    let d := PersistCall.effect d (.writeBftBody block.body)
    let d := PersistCall.effect d (.writeBftHeader block.header)
    if isCanonical then PersistCall.effect d (.updateHead .proposed block.getId) else d
  | voted block => PersistCall.effect d (.updateHead .voted block.getId)
  | finalized block => PersistCall.effect d (.updateHead .finalized block.getId)

theorem CompleteDir.commit {d : LedgerDir B.toStored} (hd : CompleteDir d)
    (c : OptimisticCommit B) : CompleteDir (c.effect d) := by
  cases c with
  | proposed block isCanonical =>
    unfold OptimisticCommit.effect
    dsimp only
    split
    · exact ((hd.effect _).effect _).effect _
    · exact (hd.effect _).effect _
  | voted block => exact hd.effect (.updateHead .voted block.getId)
  | finalized block => exact hd.effect (.updateHead .finalized block.getId)

/-- A condition on what is committed, given the ledger it is committed to. -/
abbrev CommitCondition (B : BlockKind) := MonadBlockFileLedger B → OptimisticCommit B → Prop

/-- A commit that meets the condition. -/
inductive LedgerStep (C : CommitCondition B) :
    MonadBlockFileLedger B → List (OptimisticCommit B) → MonadBlockFileLedger B → Prop
  | commit {l l' : MonadBlockFileLedger B} {c : OptimisticCommit B} :
      C l c → l.commit c = .ok l' → LedgerStep C l [c] l'

abbrev LedgerRun (C : CommitCondition B) :
    MonadBlockFileLedger B → List (OptimisticCommit B) → MonadBlockFileLedger B → Prop :=
  Reach (LedgerStep C)

namespace MonadBlockFileLedger

variable {l l' : MonadBlockFileLedger B} {c : OptimisticCommit B}

theorem persist_complete (l : MonadBlockFileLedger B) (hd : CompleteDir l.bftBlockPersist)
    (call : PersistCall B.toStored) :
    l.persist call = .ok { l with bftBlockPersist := call.effect l.bftBlockPersist } := by
  unfold persist
  rw [hd.run_eq call]

/-- On a complete directory a commit succeeds. -/
theorem commit_eq (hd : CompleteDir l.bftBlockPersist) (c : OptimisticCommit B) :
    ∃ last, l.commit c = .ok
      { toBlockCache := c.updateCache l.toBlockCache
        bftBlockPersist := c.effect l.bftBlockPersist
        lastCommit := last } := by
  cases c with
  | proposed block isCanonical =>
    refine ⟨l.lastCommit, ?_⟩
    have hwrite : l.writeBftBlock block = .ok { l with
        bftBlockPersist := PersistCall.effect (PersistCall.effect l.bftBlockPersist
          (.writeBftBody block.body)) (.writeBftHeader block.header) } := by
      unfold writeBftBlock
      rw [persist_complete l hd]
      exact persist_complete { l with bftBlockPersist := _ } (hd.effect (.writeBftBody block.body)) _
    have hd' := (hd.effect (.writeBftBody block.body)).effect (.writeBftHeader block.header)
    dsimp only [commit]
    rw [hwrite]
    cases isCanonical with
    | false => rfl
    | true =>
      have hhead := persist_complete { l with bftBlockPersist := _ } hd'
        (.updateHead .proposed block.getId)
      exact congrArg (· >>= fun l => .ok (l.updateCache block)) hhead
  | voted block => exact ⟨l.lastCommit, persist_complete (l.updateCache block) hd _⟩
  | finalized block =>
    exact ⟨some (block.getSeqNum, block.getBlockRound), persist_complete
      { l with lastCommit := some (block.getSeqNum, block.getBlockRound) } hd _⟩

theorem commit_ok (hd : CompleteDir l.bftBlockPersist) (h : l.commit c = .ok l') :
    CompleteDir l'.bftBlockPersist ∧ l'.toBlockCache = c.updateCache l.toBlockCache := by
  obtain ⟨last, heq⟩ := commit_eq hd c
  cases heq.symm.trans h
  exact ⟨hd.commit c, rfl⟩

theorem exists_step {C : CommitCondition B} (hd : CompleteDir l.bftBlockPersist) (hc : C l c) :
    ∃ l', LedgerStep C l [c] l' ∧ CompleteDir l'.bftBlockPersist ∧
      l'.toBlockCache = c.updateCache l.toBlockCache := by
  obtain ⟨last, heq⟩ := commit_eq hd c
  exact ⟨_, .commit hc heq, commit_ok hd heq⟩

end MonadBlockFileLedger

/-! ## Headers -/

/-- Blocks are cached under their ids. -/
def BlockCache.Keyed (l : BlockCache B) : Prop :=
  ∀ id block, get? l.blockCache id = some block → block.getId = id

namespace BlockCache

variable {l l' : BlockCache B} {block : FullBlock B} {ids : B.HeaderId × B.BodyId}

/-- Every cached block of `l'` is one of `l`. -/
def Within (l' l : BlockCache B) : Prop :=
  ∀ id block, get? l'.blockCache id = some block → get? l.blockCache id = some block

theorem within_dropBlock : (l.dropBlock ids).Within l := fun _ _ h => (get?_remove_some h).2

theorem within_addToIndex : (l.addToIndex block).Within l := by
  unfold addToIndex
  split
  · exact within_dropBlock (l := { l with blockCacheIndex := _ })
  · exact fun _ _ h => h

/-- There is room for all blocks of the index, or the first one is dropped. -/
theorem evict_cases (l : BlockCache B) :
    (l.evict = l ∧ l.blockCacheIndex.length ≤ l.blockCacheSize) ∨
    ∃ e index, l.blockCacheIndex = e :: index ∧ l.blockCacheSize < l.blockCacheIndex.length ∧
      l.evict = BlockCache.dropBlock { l with blockCacheIndex := index } e.2 := by
  unfold evict
  split
  next hfull =>
    split
    next hnil => exact .inl ⟨rfl, hnil ▸ Nat.zero_le _⟩
    next round ids index hindex => exact .inr ⟨(round, ids), index, hindex, hfull, rfl⟩
  next hroom => exact .inl ⟨rfl, Nat.not_lt.mp hroom⟩

theorem within_evict : l.evict.Within l := by
  obtain ⟨heq, -⟩ | ⟨e, index, -, -, heq⟩ := evict_cases l
  · rw [heq]
    exact fun _ _ h => h
  · rw [heq]
    exact within_dropBlock (l := { l with blockCacheIndex := index })

/-- A cached block was cached before or has just come in. -/
theorem cached_updateCache {id : B.HeaderId} {b : FullBlock B}
    (h : get? (l.updateCache block).blockCache id = some b) :
    (id = block.getId ∧ b = block) ∨ get? l.blockCache id = some b := by
  unfold updateCache addBlock at h
  rw [get?_set] at h
  split at h
  next hid => exact .inl ⟨hid, (Option.some.inj h).symm⟩
  · exact .inr (within_addToIndex _ _ (within_evict _ _ h))

theorem Keyed.updateCache (h : l.Keyed) (block : FullBlock B) : (l.updateCache block).Keyed := by
  intro id b hb
  rcases cached_updateCache hb with ⟨rfl, rfl⟩ | hold
  · rfl
  · exact h id b hold

end BlockCache

/-- Each header is the parent of the next one. -/
def Linked (B : BlockKind) (headers : List B.Header) : Prop :=
  headers.IsChain fun header next => B.getParentId next = B.getId header

namespace MonadBlockFileLedger

variable {l : MonadBlockFileLedger B}

theorem getId_of_getHeader? (hd : CompleteDir l.bftBlockPersist) (hk : l.Keyed)
    {id : B.HeaderId} {header : B.Header} (h : l.getHeader? id = some header) :
    B.getId header = id := by
  unfold getHeader? at h
  split at h
  next block hblock =>
    cases h
    exact hk id block hblock
  split at h
  · cases h
  cases hread : readBftHeader l.bftBlockPersist id with
  | error e => simp [hread, Except.toOption] at h
  | ok header' =>
    obtain rfl : header' = header := by simpa [hread, Except.toOption] using h
    exact hd.getId_of_readBftHeader hread

/-- What the loop puts before the headers it has is linked, and ends with the next block. -/
theorem fetchHeaders_spec (hd : CompleteDir l.bftBlockPersist) (hk : l.Keyed) :
    ∀ {n : ℕ} {next : B.HeaderId} {collected headers : List B.Header},
      l.fetchHeaders n next collected = some headers →
      ∃ found, headers = found ++ collected ∧ found.length = n ∧ Linked B found ∧
        ∀ header, found.getLast? = some header → B.getId header = next
  | 0, next, collected, headers, h => by
    cases h
    exact ⟨[], rfl, rfl, .nil, nofun⟩
  | n + 1, next, collected, headers, h => by
    unfold fetchHeaders at h
    split at h
    · cases h
    next header hheader =>
      have hid := getId_of_getHeader? hd hk hheader
      obtain ⟨found, rfl, hlen, hlinked, hlast⟩ := fetchHeaders_spec hd hk h
      refine ⟨found ++ [header], by simp, by simp [hlen], ?_, by simpa using hid⟩
      refine isChain_append.mpr ⟨hlinked, .singleton _, fun last hfound first hfirst => ?_⟩
      cases hfirst
      exact (hlast last hfound).symm

/-- Headers that are found are as many as were asked for, linked, and end with the last block
of the range. -/
theorem ledgerFetchHeaders_spec (hd : CompleteDir l.bftBlockPersist) (hk : l.Keyed)
    {lastBlockId : B.HeaderId} {numBlocks : ℕ} {headers : List B.Header}
    (h : l.ledgerFetchHeaders lastBlockId numBlocks = some headers) :
    headers.length = numBlocks ∧ Linked B headers ∧
      ∀ header, headers.getLast? = some header → B.getId header = lastBlockId := by
  unfold ledgerFetchHeaders at h
  split at h
  · cases h
  · obtain ⟨found, rfl, hspec⟩ := fetchHeaders_spec hd hk h
    rwa [append_nil]

end MonadBlockFileLedger

/-! ## Bodies -/

/-- The bodies of the cached blocks are cached and no others, no two blocks share a body, and the
index entries `I` are of cached blocks. -/
structure BlockCache.Serves (l : BlockCache B) (I : ℕ × B.HeaderId × B.BodyId → Prop) : Prop where
  payload : ∀ bodyId body, get? l.blockPayloadCache bodyId = some body ↔
    ∃ id block, get? l.blockCache id = some block ∧ block.getBodyId = bodyId ∧ block.body = body
  distinct : ∀ id block id' block', get? l.blockCache id = some block →
    get? l.blockCache id' = some block' → block.getBodyId = block'.getBodyId → id = id'
  indexed : ∀ e, I e → ∃ block, get? l.blockCache e.2.1 = some block ∧
    block.getBodyId = e.2.2 ∧ block.getBlockRound = e.1

namespace BlockCache

variable {l : BlockCache B} {block : FullBlock B} {ids : B.HeaderId × B.BodyId}
  {I J : ℕ × B.HeaderId × B.BodyId → Prop} {e : ℕ × B.HeaderId × B.BodyId}

/-- Of the cached blocks only the one under this id has this body. -/
def Owns (l : BlockCache B) (ids : B.HeaderId × B.BodyId) : Prop :=
  ∀ id block, get? l.blockCache id = some block → (block.getBodyId = ids.2 ↔ id = ids.1)

def entry (block : FullBlock B) : ℕ × B.HeaderId × B.BodyId :=
  (block.getBlockRound, block.getId, block.getBodyId)

theorem Serves.owns (h : l.Serves I) (he : I e) : l.Owns e.2 := by
  intro id block hblock
  obtain ⟨block', hblock', hbody', -⟩ := h.indexed e he
  constructor
  · exact fun hbody => h.distinct id block _ block' hblock hblock' (hbody.trans hbody'.symm)
  · rintro rfl
    rwa [Option.some.inj (hblock.symm.trans hblock')]

/-- One id is one block, and a block is of one round. -/
theorem Serves.round_eq (h : l.Serves I) {e' : ℕ × B.HeaderId × B.BodyId} (he : I e) (he' : I e')
    (hid : e.2.1 = e'.2.1) : e.1 = e'.1 := by
  obtain ⟨block, hblock, -, hround⟩ := h.indexed e he
  obtain ⟨block', hblock', -, hround'⟩ := h.indexed e' he'
  rw [hid] at hblock
  cases hblock.symm.trans hblock'
  exact hround.symm.trans hround'

theorem Serves.withIndex (h : l.Serves I) (index : List (ℕ × B.HeaderId × B.BodyId)) :
    Serves { l with blockCacheIndex := index } I :=
  { h with }

/-- A block can be dropped with its body, if the body is only its own. -/
theorem Serves.dropBlock (h : l.Serves I) (hown : l.Owns ids)
    (hJ : ∀ e, J e → I e ∧ e.2.1 ≠ ids.1) : (l.dropBlock ids).Serves J where
  payload bodyId body := by
    unfold BlockCache.dropBlock
    constructor
    · intro hbody
      obtain ⟨hne, hbody⟩ := get?_remove_some hbody
      obtain ⟨id, block, hblock, rfl, rfl⟩ := (h.payload bodyId body).mp hbody
      refine ⟨id, block, ?_, rfl, rfl⟩
      rw [get?_remove, if_neg fun hid => hne ((hown id block hblock).mpr hid)]
      exact hblock
    · rintro ⟨id, block, hblock, rfl, rfl⟩
      obtain ⟨hne, hblock⟩ := get?_remove_some hblock
      rw [get?_remove, if_neg fun hbody => hne ((hown id block hblock).mp hbody)]
      exact (h.payload _ _).mpr ⟨id, block, hblock, rfl, rfl⟩
  distinct id block id' block' hblock hblock' :=
    h.distinct id block id' block' (within_dropBlock _ _ hblock) (within_dropBlock _ _ hblock')
  indexed e he := by
    obtain ⟨hI, hne⟩ := hJ e he
    obtain ⟨block, hblock, hspec⟩ := h.indexed e hI
    refine ⟨block, ?_, hspec⟩
    unfold BlockCache.dropBlock
    rw [get?_remove, if_neg hne]
    exact hblock

/-- The entries of other rounds stay in place when a block joins the index. -/
theorem Serves.addToIndex (h : l.Serves (· ∈ l.blockCacheIndex)) (block : FullBlock B) :
    (l.addToIndex block).Serves
      fun e => e ∈ l.blockCacheIndex ∧ e.1 ≠ block.getBlockRound := by
  unfold BlockCache.addToIndex
  split
  next ids hids =>
    have hmem := mem_of_get? hids
    have hl := h.withIndex (Assoc.insert l.blockCacheIndex block.getBlockRound (entry block).2)
    exact hl.dropBlock (hl.owns hmem) fun e he => ⟨he.1, fun hid => he.2 (h.round_eq he.1 hmem hid)⟩
  · exact ⟨h.payload, h.distinct, fun e he => h.indexed e he.1⟩

theorem blockCacheIndex_addToIndex : (l.addToIndex block).blockCacheIndex =
    Assoc.insert l.blockCacheIndex block.getBlockRound (block.getId, block.getBodyId) := by
  unfold addToIndex
  split <;> rfl

/-- Eviction drops a block of the index, or nothing. -/
theorem Serves.evict (h : l.Serves I) (hsorted : l.blockCacheIndex.Pairwise fun e e' => e.1 < e'.1)
    (hown : ∀ e ∈ l.blockCacheIndex, l.Owns e.2)
    (hround : ∀ e ∈ l.blockCacheIndex, ∀ e', I e' → e'.2.1 = e.2.1 → e'.1 = e.1) :
    l.evict.Serves fun e => I e ∧ e ∈ l.evict.blockCacheIndex := by
  obtain ⟨heq, -⟩ | ⟨e₀, index, hindex, -, heq⟩ := evict_cases l
  · rw [heq]
    exact ⟨h.payload, h.distinct, fun e he => h.indexed e he.1⟩
  rw [hindex] at hsorted hown hround
  rw [heq]
  refine (h.withIndex index).dropBlock (hown e₀ mem_cons_self) fun e he => ⟨he.1, fun hid => ?_⟩
  have hlt := (pairwise_cons.mp hsorted).1 e he.2
  exact hlt.ne (hround e₀ mem_cons_self e he.1 hid).symm

theorem sublist_blockCacheIndex_evict : l.evict.blockCacheIndex.Sublist l.blockCacheIndex := by
  obtain ⟨heq, -⟩ | ⟨e, index, hindex, -, heq⟩ := evict_cases l
  · rw [heq]
  · rw [heq, hindex]
    exact sublist_cons_self e index

/-- A block whose body is only its own comes in. -/
theorem Serves.addBlock (h : l.Serves I) (hown : l.Owns (block.getId, block.getBodyId))
    (hsame : ∀ b, get? l.blockCache block.getId = some b → b.header = block.header) :
    (l.addBlock block).Serves fun e => I e ∨ e = entry block where
  payload bodyId body := by
    unfold BlockCache.addBlock
    rw [get?_set]
    constructor
    · intro hbody
      split at hbody
      next heq => exact ⟨block.getId, block, by rw [get?_set, if_pos rfl], heq.symm,
          Option.some.inj hbody⟩
      next hne =>
        obtain ⟨id, b, hb, rfl, rfl⟩ := (h.payload bodyId body).mp hbody
        refine ⟨id, b, ?_, rfl, rfl⟩
        rw [get?_set, if_neg fun hid => hne ((hown id b hb).mpr hid)]
        exact hb
    · rintro ⟨id, b, hb, rfl, rfl⟩
      rw [get?_set] at hb
      split at hb
      · cases hb
        rw [if_pos rfl]
      next hid =>
        rw [if_neg fun hbody => hid ((hown id b hb).mp hbody)]
        exact (h.payload _ _).mpr ⟨id, b, hb, rfl, rfl⟩
  distinct id b id' b' hb hb' hbody := by
    unfold BlockCache.addBlock at hb hb'
    rw [get?_set] at hb hb'
    split at hb <;> split at hb'
    next hid hid' => exact hid.trans hid'.symm
    next hid hid' =>
      cases hb
      exact absurd ((hown id' b' hb').mp hbody.symm) hid'
    next hid hid' =>
      cases hb'
      exact absurd ((hown id b hb).mp hbody) hid
    · exact h.distinct id b id' b' hb hb' hbody
  indexed e he := by
    unfold BlockCache.addBlock
    rw [get?_set]
    rcases he with he | rfl
    · obtain ⟨b, hb, hbody, hround⟩ := h.indexed e he
      split
      next hid =>
        rw [hid] at hb
        have hheader := hsame b hb
        refine ⟨block, rfl, ?_, ?_⟩
        · rw [← hbody, FullBlock.getBodyId, FullBlock.getBodyId, hheader]
        · rw [← hround, FullBlock.getBlockRound, FullBlock.getBlockRound, hheader]
      · exact ⟨b, hb, hbody, hround⟩
    · exact ⟨block, if_pos rfl, rfl, rfl⟩

/-- What holds of the cache as long as bodies are not shared. -/
structure Sound (l : BlockCache B) : Prop where
  keyed : l.Keyed
  sorted : l.blockCacheIndex.Pairwise fun e e' => e.1 < e'.1
  serves : l.Serves (· ∈ l.blockCacheIndex)

def empty (size : ℕ) : BlockCache B := ⟨size, [], [], []⟩

theorem sound_empty (size : ℕ) : (empty size : BlockCache B).Sound where
  keyed := nofun
  sorted := .nil
  serves := ⟨fun _ _ => ⟨nofun, nofun⟩, nofun, nofun⟩

/-- No other block in the cache has the body of the block. -/
def NotShared (l : BlockCache B) (block : FullBlock B) : Prop :=
  ∀ id b, get? l.blockCache id = some b → b.getBodyId = block.getBodyId → b.getId = block.getId

theorem Sound.updateCache (hinj : Injective B.getId) (h : l.Sound)
    (hnot : l.NotShared block) : (l.updateCache block).Sound := by
  have hown : ∀ {l' : BlockCache B}, l'.Within l → l'.Owns (block.getId, block.getBodyId) := by
    intro l' hl' id b hb
    have hb := hl' id b hb
    have hid := h.keyed id b hb
    refine ⟨fun hbody => hid.symm.trans (hnot id b hb hbody), ?_⟩
    rintro rfl
    exact congrArg B.blockBodyId (hinj hid)
  have hsame : ∀ {l' : BlockCache B}, l'.Within l →
      ∀ b, get? l'.blockCache block.getId = some b → b.header = block.header := by
    intro l' hl' b hb
    exact hinj (h.keyed _ b (hl' _ b hb))
  have hwithin₁ : (l.addToIndex block).Within l := within_addToIndex
  have hwithin₂ : (l.addToIndex block).evict.Within l := fun id b hb =>
    hwithin₁ id b (within_evict id b hb)
  have hmem : ∀ e, e ∈ (l.addToIndex block).blockCacheIndex ↔
      e = entry block ∨ (e ∈ l.blockCacheIndex ∧ e.1 ≠ block.getBlockRound) := by
    intro e
    rw [blockCacheIndex_addToIndex]
    exact mem_insert
  have hsorted₁ : (l.addToIndex block).blockCacheIndex.Pairwise fun e e' => e.1 < e'.1 := by
    rw [blockCacheIndex_addToIndex]
    exact pairwise_insert h.sorted
  have h₁ := h.serves.addToIndex block
  have h₂ := h₁.evict hsorted₁ (fun e he => ?_) fun e he e' he' hid => ?_
  · have h₃ := h₂.addBlock (hown hwithin₂) (hsame hwithin₂)
    refine ⟨h.keyed.updateCache block, hsorted₁.sublist sublist_blockCacheIndex_evict,
      h₃.payload, h₃.distinct, fun e he => h₃.indexed e ?_⟩
    rcases (hmem e).mp (sublist_blockCacheIndex_evict.subset he) with rfl | hold
    · exact .inr rfl
    · exact .inl ⟨hold, he⟩
  · rcases (hmem e).mp he with rfl | hold
    · exact hown hwithin₁
    · exact h₁.owns hold
  · rcases (hmem e).mp he with rfl | hold
    · -- an entry with the id of the new block is an entry of its round
      obtain ⟨b, hb, -, hround⟩ := h₁.indexed e' he'
      rw [hid] at hb
      rw [← hround, FullBlock.getBlockRound, hsame hwithin₁ b hb]
      rfl
    · exact h₁.round_eq he' hold hid

/-! ## Eviction -/

/-- There is room for one more block, or a block of the same or a lower round. -/
def NotLowest (l : BlockCache B) (block : FullBlock B) : Prop :=
  l.blockCacheIndex.length < l.blockCacheSize ∨ ∃ e ∈ l.blockCacheIndex, e.1 ≤ block.getBlockRound

/-- The index is of the cached blocks and not too long. -/
structure Exact (l : BlockCache B) : Prop extends Sound l where
  bounded : l.blockCacheIndex.length ≤ l.blockCacheSize
  listed : ∀ id b, get? l.blockCache id = some b → entry b ∈ l.blockCacheIndex

theorem Sound.nodup (h : l.Sound) : (l.blockCacheIndex.map Prod.fst).Nodup :=
  pairwise_map.mpr (h.sorted.imp Nat.ne_of_lt)

theorem length_addToIndex_le :
    (l.addToIndex block).blockCacheIndex.length ≤ l.blockCacheIndex.length + 1 := by
  rw [blockCacheIndex_addToIndex, perm_insert.length_eq]
  exact Nat.succ_le_succ (length_filter_le _ _)

theorem blockCacheSize_addToIndex : (l.addToIndex block).blockCacheSize = l.blockCacheSize := by
  unfold addToIndex
  split <;> rfl

/-- A block that stays cached stays in the index, until eviction. -/
theorem Exact.listed_addToIndex (h : l.Exact) {id : B.HeaderId} {b : FullBlock B}
    (hb : get? (l.addToIndex block).blockCache id = some b) :
    entry b ∈ (l.addToIndex block).blockCacheIndex := by
  have hold := within_addToIndex id b hb
  have hmem := h.listed id b hold
  rw [blockCacheIndex_addToIndex]
  refine mem_insert.mpr (.inr ⟨hmem, fun hround => ?_⟩)
  -- the block of that round has been dropped
  have hget := get?_of_mem h.nodup hmem
  rw [show b.getBlockRound = block.getBlockRound from hround] at hget
  unfold BlockCache.addToIndex at hb
  rw [hget] at hb
  exact (get?_remove_some hb).1 (h.keyed id b hold).symm

/-- The block that comes in is not evicted. -/
theorem Exact.head_ne (h : l.Exact) (hlow : l.NotLowest block) {e : ℕ × B.HeaderId × B.BodyId}
    {index : List (ℕ × B.HeaderId × B.BodyId)}
    (hindex : (l.addToIndex block).blockCacheIndex = e :: index)
    (hfull : l.blockCacheSize < (l.addToIndex block).blockCacheIndex.length) : e ≠ entry block := by
  rintro rfl
  rcases hlow with hroom | ⟨e, he, hle⟩
  · have hlen : (l.addToIndex block).blockCacheIndex.length ≤ _ := length_addToIndex_le
    omega
  have hbounded := h.bounded
  rcases Nat.eq_or_lt_of_le hle with heq | hlt
  · have hlen := (perm_cons_remove h.nodup (get?_of_mem h.nodup he)).length_eq
    rw [blockCacheIndex_addToIndex, perm_insert.length_eq, ← heq] at hfull
    simp only [length_cons] at hfull hlen
    omega
  · have hsorted := pairwise_insert (k := block.getBlockRound)
      (v := (block.getId, block.getBodyId)) h.sorted
    have hmem := mem_insert (k := block.getBlockRound)
      (v := (block.getId, block.getBodyId)) |>.mpr (.inr ⟨he, hlt.ne⟩)
    rw [← blockCacheIndex_addToIndex, hindex] at hsorted hmem
    rcases mem_cons.mp hmem with rfl | hmem
    · exact hlt.ne rfl
    · exact hlt.not_gt ((pairwise_cons.mp hsorted).1 e hmem)

theorem Exact.updateCache (hinj : Injective B.getId) (h : l.Exact)
    (hnot : l.NotShared block) (hlow : l.NotLowest block) : (l.updateCache block).Exact := by
  have hsound := h.toSound.updateCache hinj hnot
  have hentry : entry block ∈ (l.addToIndex block).blockCacheIndex := by
    rw [blockCacheIndex_addToIndex]
    exact mem_insert.mpr (.inl rfl)
  have hcached : ∀ {id b}, get? (l.updateCache block).blockCache id = some b →
      b = block ∨ get? (l.addToIndex block).evict.blockCache id = some b := by
    intro id b hb
    unfold BlockCache.updateCache BlockCache.addBlock at hb
    rw [get?_set] at hb
    split at hb
    · exact .inl (Option.some.inj hb).symm
    · exact .inr hb
  obtain ⟨heq, hroom⟩ | ⟨e, index, hindex, hfull, heq⟩ := evict_cases (l.addToIndex block)
  · refine ⟨hsound, ?_, fun id b hb => ?_⟩ <;> unfold BlockCache.updateCache <;> rw [heq]
    · exact hroom
    · rcases hcached hb with rfl | hold
      · exact hentry
      · rw [heq] at hold
        exact h.listed_addToIndex hold
  · rw [blockCacheSize_addToIndex] at hfull
    have hne := h.head_ne hlow hindex hfull
    have hlen : (l.addToIndex block).blockCacheIndex.length ≤ _ := length_addToIndex_le
    refine ⟨hsound, ?_, fun id b hb => ?_⟩ <;> unfold BlockCache.updateCache <;> rw [heq]
    · change index.length ≤ (l.addToIndex block).blockCacheSize
      have hbounded := h.bounded
      rw [hindex, length_cons] at hlen
      rw [blockCacheSize_addToIndex]
      omega
    · change entry b ∈ index
      rw [hindex] at hentry
      rcases hcached hb with rfl | hold
      · exact (mem_cons.mp hentry).resolve_left hne.symm
      have hkey := h.keyed id b (within_addToIndex _ _ (within_evict _ _ hold))
      rw [heq] at hold
      obtain ⟨hid, hold⟩ := get?_remove_some hold
      have hmem := h.listed_addToIndex hold
      rw [hindex] at hmem
      refine (mem_cons.mp hmem).resolve_left fun he => hid ?_
      rw [← he]
      exact hkey.symm

/-- Calls of `update_cache` whose blocks share no body with another cached block and are not of
the lowest round of a full cache. -/
def Fresh : BlockCache B → List (FullBlock B) → Prop
  | _, [] => True
  | l, block :: blocks =>
    l.NotShared block ∧ l.NotLowest block ∧ Fresh (l.updateCache block) blocks

theorem Exact.foldl (hinj : Injective B.getId) {blocks : List (FullBlock B)}
    (h : l.Exact) (hfresh : Fresh l blocks) : (blocks.foldl BlockCache.updateCache l).Exact := by
  induction blocks generalizing l with
  | nil => exact h
  | cons block blocks ih => exact ih (h.updateCache hinj hfresh.1 hfresh.2.1) hfresh.2.2

/-- **The cache stays bounded and indexed.** -/
theorem updateCache_exact (hinj : Injective B.getId) {size : ℕ}
    {blocks : List (FullBlock B)} (hfresh : Fresh (empty size) blocks) {l : BlockCache B}
    (hl : l = blocks.foldl BlockCache.updateCache (empty size)) :
    (∀ id, (get? l.blockCache id).isSome = true ↔ ∃ e ∈ l.blockCacheIndex, e.2.1 = id) ∧
    l.blockCacheIndex.length ≤ l.blockCacheSize ∧
    ∀ bodyId body, get? l.blockPayloadCache bodyId = some body ↔
      ∃ id block, get? l.blockCache id = some block ∧ block.getBodyId = bodyId ∧
        block.body = body := by
  have hempty : (empty size : BlockCache B).Exact := ⟨sound_empty size, Nat.zero_le _, nofun⟩
  have h := hempty.foldl hinj hfresh
  rw [← hl] at h
  refine ⟨fun id => ⟨fun hsome => ?_, ?_⟩, h.bounded, h.serves.payload⟩
  · obtain ⟨b, hb⟩ := Option.isSome_iff_exists.mp hsome
    exact ⟨entry b, h.listed id b hb, h.keyed id b hb⟩
  · rintro ⟨e, he, rfl⟩
    obtain ⟨b, hb, -⟩ := h.serves.indexed e he
    exact Option.isSome_iff_exists.mpr ⟨b, hb⟩

end BlockCache

/-- The block that comes into the cache has a body that no other cached block has. -/
def unsharedBody : CommitCondition B := fun l c =>
  match c with
  | .proposed block _ => l.NotShared block
  | .voted block => l.NotShared block
  | .finalized _ => True

theorem BlockCache.Sound.commit {l : MonadBlockFileLedger B} {c : OptimisticCommit B}
    (hinj : Injective B.getId) (h : l.Sound) (hc : unsharedBody l c) :
    (c.updateCache l.toBlockCache).Sound := by
  cases c with
  | proposed block isCanonical => exact h.updateCache hinj hc
  | voted block => exact h.updateCache hinj hc
  | finalized block => exact h

/-- **The ledger serves what it has.** On a directory of complete files, as long as no block
comes in whose body another cached block has, the body of every cached block can be fetched,
and headers that are found are as many as were asked for, linked, and end with the last block
of the range. -/
theorem LedgerRun.serves (hinj : Injective B.getId) {d : LedgerDir B.toStored}
    (hd : CompleteDir d) {commits : List (OptimisticCommit B)} {l : MonadBlockFileLedger B}
    (hrun : LedgerRun unsharedBody (.new d) commits l) :
    (∀ id block, get? l.blockCache id = some block →
      l.ledgerFetchPayload (B.blockBodyId block.header) = some block.body) ∧
    ∀ lastBlockId numBlocks headers, l.ledgerFetchHeaders lastBlockId numBlocks = some headers →
      headers.length = numBlocks ∧ Linked B headers ∧
        ∀ header, headers.getLast? = some header → B.getId header = lastBlockId := by
  have hstart : (MonadBlockFileLedger.new d).Sound := BlockCache.sound_empty _
  obtain ⟨hd, hsound⟩ : CompleteDir l.bftBlockPersist ∧ l.Sound := by
    refine Reach.invariant (I := fun l : MonadBlockFileLedger B =>
      CompleteDir l.bftBlockPersist ∧ l.Sound) ?_ ⟨hd, hstart⟩ hrun
    rintro l _ l' ⟨hd, hsound⟩ ⟨hc, hcommit⟩
    obtain ⟨hd', hcache⟩ := MonadBlockFileLedger.commit_ok hd hcommit
    rw [hcache]
    exact ⟨hd', hsound.commit hinj hc⟩
  refine ⟨fun id block hblock => ?_, fun lastBlockId numBlocks headers hfound => ?_⟩
  · have hpayload := (hsound.serves.payload _ _).mpr ⟨id, block, hblock, rfl, rfl⟩
    unfold MonadBlockFileLedger.ledgerFetchPayload
    rw [show B.blockBodyId block.header = block.getBodyId from rfl, hpayload]
  · exact MonadBlockFileLedger.ledgerFetchHeaders_spec hd hsound.keyed hfound

/-! ## A shared body -/

section Numbered

/-- Numbers as runs of ones that end with a zero. -/
def encodeNumbers (ns : List ℕ) : List UInt8 := ns.flatMap fun n => List.replicate n 1 ++ [0]

/-- Read numbers, with the ones counted so far. -/
def decodeNumbers : List UInt8 → ℕ → Option (List ℕ)
  | [], 0 => some []
  | [], _ + 1 => none
  | b :: bytes, n =>
    if b = 0 then (decodeNumbers bytes 0).map (n :: ·) else decodeNumbers bytes (n + 1)

theorem decodeNumbers_ones (m n : ℕ) (bytes : List UInt8) :
    decodeNumbers (List.replicate m 1 ++ [0] ++ bytes) n =
      (decodeNumbers bytes 0).map ((n + m) :: ·) := by
  induction m generalizing n with
  | zero => rfl
  | succ m ih =>
    rw [replicate_succ, cons_append, cons_append, decodeNumbers,
      if_neg (by decide), ih, Nat.add_right_comm, Nat.add_assoc]

theorem decodeNumbers_encodeNumbers (ns : List ℕ) :
    decodeNumbers (encodeNumbers ns) 0 = some ns := by
  induction ns with
  | nil => rfl
  | cons n ns ih =>
    unfold encodeNumbers at ih ⊢
    rw [flatMap_cons, decodeNumbers_ones, ih, Nat.zero_add]
    rfl

structure NumberedHeader where
  round : ℕ
  bodyId : ℕ
  parentId : List ℕ

/-- Headers are their own ids, and so are bodies. -/
abbrev numbered : BlockKind where
  Header := NumberedHeader
  Body := ℕ
  HeaderId := List ℕ
  BodyId := ℕ
  getId h := h.round :: h.bodyId :: h.parentId
  getBodyId b := b
  header :=
    { encode h := encodeNumbers (h.round :: h.bodyId :: h.parentId)
      decode bytes :=
        match decodeNumbers bytes 0 with
        | some (round :: bodyId :: parentId) => some ⟨round, bodyId, parentId⟩
        | _ => none
      decode_encode h := by rw [decodeNumbers_encodeNumbers] }
  body :=
    { encode b := encodeNumbers [b]
      decode bytes :=
        match decodeNumbers bytes 0 with
        | some [b] => some b
        | _ => none
      decode_encode b := by rw [decodeNumbers_encodeNumbers] }
  getParentId h := h.parentId
  blockBodyId h := h.bodyId
  blockRound h := h.round
  seqNum h := h.round

theorem injective_getId_numbered : Injective numbered.getId := by
  rintro ⟨_, _, _⟩ ⟨_, _, _⟩ h
  obtain ⟨rfl, rfl, rfl⟩ := h
  rfl

/-- The block of a round. The first two rounds have the same body. -/
def roundBlock (round : ℕ) : FullBlock numbered where
  header := ⟨round, if round ≤ 2 then 0 else round, []⟩
  body := if round ≤ 2 then 0 else round
  body_matches := rfl

/-- A block of the first round that is not `roundBlock 1`. -/
def otherBlock : FullBlock numbered := ⟨⟨1, 5, []⟩, 5, rfl⟩

theorem BlockCache.updateCache_exact_full : ∃ l : BlockCache numbered,
    l = [roundBlock 3, roundBlock 4].foldl BlockCache.updateCache (.empty 1) ∧
    l.blockCacheIndex.length ≤ l.blockCacheSize := by
  have hfresh : Fresh (.empty 1) [roundBlock 3, roundBlock 4] := by
    refine ⟨nofun, .inl (by decide), fun id b hb hbody => ?_, .inr ⟨_, .head _, by decide⟩, trivial⟩
    obtain ⟨-, rfl⟩ | hb := cached_updateCache hb
    · cases hbody
    · cases hb
  exact ⟨_, rfl, (updateCache_exact injective_getId_numbered hfresh rfl).2.1⟩

/-- The first block goes, with the body of the second. In a full cache the block of a lower round
is cached and not in the index. -/
theorem BlockCache.updateCache_inexact :
    (let l := [roundBlock 1, roundBlock 2, otherBlock].foldl BlockCache.updateCache (.empty 1000)
    (get? l.blockCache (roundBlock 2).getId).isSome = true ∧
      get? l.blockPayloadCache (roundBlock 2).getBodyId = none) ∧
    let l := [roundBlock 4, roundBlock 3].foldl BlockCache.updateCache (.empty 1)
    (get? l.blockCache (roundBlock 3).getId).isSome = true ∧
      ∀ e ∈ l.blockCacheIndex, e.2.1 ≠ (roundBlock 3).getId := by
  decide

/-- The first rounds, all proposed. -/
def proposedRounds (n : ℕ) : List (OptimisticCommit numbered) :=
  (List.range' 1 n).map fun round => .proposed (roundBlock round) true

end Numbered

namespace LedgerRun

theorem serves_proposedRounds : ∃ l : MonadBlockFileLedger numbered,
    LedgerRun unsharedBody (.new empty) (proposedRounds 1) l ∧ l.ledgerFetchPayload 0 = some 0 := by
  obtain ⟨l, hstep, -, hcache⟩ := MonadBlockFileLedger.exists_step (C := unsharedBody)
    (l := .new empty) (c := .proposed (roundBlock 1) true) completeDir_empty
    (fun _ _ h => by cases h)
  have hrun : LedgerRun unsharedBody (.new empty) (proposedRounds 1) l := .single hstep
  refine ⟨l, hrun, (LedgerRun.serves injective_getId_numbered completeDir_empty hrun).1
    (roundBlock 1).getId (roundBlock 1) ?_⟩
  rw [hcache]
  rfl

end LedgerRun

namespace BlockCache

/-- A block of a later round than all goes to the end of the index. -/
theorem updateCache_of_lt {l : BlockCache B} {block : FullBlock B}
    (h : ∀ e ∈ l.blockCacheIndex, e.1 < block.getBlockRound) :
    l.updateCache block =
      ({ l with blockCacheIndex := l.blockCacheIndex ++ [entry block] }.evict).addBlock block := by
  unfold updateCache addToIndex
  rw [get?_eq_none fun e he => (h e he).ne, insert_of_lt h]
  rfl

end BlockCache

theorem proposedRounds_succ (n : ℕ) :
    proposedRounds (n + 1) = proposedRounds n ++ [.proposed (roundBlock (n + 1)) true] := by
  unfold proposedRounds
  rw [List.range'_1_concat, map_append, Nat.add_comm 1 n]
  rfl

/-- What the ledger holds after the first rounds. -/
structure Filled (n : ℕ) (l : MonadBlockFileLedger numbered) : Prop where
  dir : CompleteDir l.bftBlockPersist
  size : l.blockCacheSize = 1000
  index : l.blockCacheIndex = (List.range' 1 n).map fun round => BlockCache.entry (roundBlock round)
  second : 2 ≤ n → get? l.blockCache (roundBlock 2).getId = some (roundBlock 2)

namespace Filled

variable {n : ℕ} {l : MonadBlockFileLedger numbered}

theorem length (h : Filled n l) : l.blockCacheIndex.length = n := by simp [h.index]

theorem round_lt (h : Filled n l) :
    ∀ e ∈ l.blockCacheIndex, e.1 < (roundBlock (n + 1)).getBlockRound := by
  intro e he
  rw [h.index] at he
  obtain ⟨round, hround, rfl⟩ := mem_map.mp he
  have hle := (mem_range'_1.mp hround).2
  change round < n + 1
  omega

/-- One more round, if there is room for it. -/
theorem succ (h : Filled n l) (hn : n < 1000) :
    ∃ l', LedgerStep (fun _ _ => True) l [.proposed (roundBlock (n + 1)) true] l' ∧
      Filled (n + 1) l' := by
  obtain ⟨l', hstep, hdir, hcache⟩ :=
    MonadBlockFileLedger.exists_step h.dir (C := fun _ _ => True) (c := .proposed (roundBlock (n + 1)) true) trivial
  have hroom : ¬l.blockCacheSize < (l.blockCacheIndex ++
      [BlockCache.entry (roundBlock (n + 1))]).length := by
    rw [length_append, h.length, h.size]
    exact Nat.not_lt.mpr hn
  dsimp only [OptimisticCommit.updateCache] at hcache
  rw [BlockCache.updateCache_of_lt h.round_lt, BlockCache.evict, if_neg hroom] at hcache
  refine ⟨l', hstep, hdir, ?_, ?_, fun htwo => ?_⟩ <;> rw [hcache]
  · exact h.size
  · change l.blockCacheIndex ++ [BlockCache.entry (roundBlock (n + 1))] = _
    rw [h.index, List.range'_1_concat, map_append, Nat.add_comm 1 n]
    rfl
  · change get? (Assoc.set l.blockCache (roundBlock (n + 1)).getId (roundBlock (n + 1)))
      (roundBlock 2).getId = _
    rw [get?_set]
    split
    next hid =>
      have hn : 2 = n + 1 := (List.cons.inj hid).1
      rw [hn]
    next hid =>
      refine h.second ?_
      by_contra hlt
      obtain rfl : n = 1 := by omega
      exact hid rfl

theorem exists_run (hn : n ≤ 1000) : ∃ l : MonadBlockFileLedger numbered,
    LedgerRun (fun _ _ => True) (.new empty) (proposedRounds n) l ∧ Filled n l := by
  induction n with
  | zero => exact ⟨_, .nil _, completeDir_empty, rfl, rfl, by simp⟩
  | succ n ih =>
    obtain ⟨l, hrun, hl⟩ := ih (by omega)
    obtain ⟨l', hstep, hl'⟩ := hl.succ (by omega)
    rw [proposedRounds_succ]
    exact ⟨l', .snoc hrun hstep, hl'⟩

end Filled

/-- After a thousand and one rounds the first block leaves the cache, and takes the body of the
second block with it. The header of the second block is served from the cache, and its body is
not available. -/
theorem LedgerRun.shared_body_lost : ∃ l : MonadBlockFileLedger numbered,
    LedgerRun (fun _ _ => True) (.new empty) (proposedRounds 1001) l ∧
      get? l.blockCache (roundBlock 2).getId = some (roundBlock 2) ∧
      l.ledgerFetchHeaders (roundBlock 2).getId 1 = some [(roundBlock 2).header] ∧
      l.ledgerFetchPayload (numbered.blockBodyId (roundBlock 2).header) = none := by
  obtain ⟨l, hrun, hl⟩ := Filled.exists_run le_rfl
  obtain ⟨l', hstep, hdir, hcache⟩ :=
    MonadBlockFileLedger.exists_step hl.dir (C := fun _ _ => True) (c := .proposed (roundBlock 1001) true) trivial
  have hfull : l.blockCacheSize < (l.blockCacheIndex ++
      [BlockCache.entry (roundBlock 1001)]).length := by
    rw [length_append, hl.length, hl.size]
    exact Nat.lt_succ_self _
  obtain ⟨rest, hrest⟩ : ∃ rest, l.blockCacheIndex = BlockCache.entry (roundBlock 1) :: rest :=
    ⟨_, hl.index.trans (congrArg _ (List.range'_succ (s := 1) (n := 999)))⟩
  have hlen : rest.length = 999 := by
    have := hl.length
    rw [hrest, length_cons] at this
    omega
  dsimp only [OptimisticCommit.updateCache] at hcache
  rw [BlockCache.updateCache_of_lt hl.round_lt, BlockCache.evict, if_pos hfull] at hcache
  simp only [hrest, cons_append] at hcache
  have htwo : get? l'.blockCache (roundBlock 2).getId = some (roundBlock 2) := by
    rw [hcache]
    simp only [BlockCache.addBlock, BlockCache.dropBlock, get?_set, get?_remove]
    exact hl.second (by omega)
  have hrun' : LedgerRun (fun _ _ => True) (.new empty) (proposedRounds (1000 + 1)) l' := by
    rw [proposedRounds_succ]
    exact .snoc hrun hstep
  refine ⟨l', hrun', htwo, ?_, ?_⟩
  · simp [MonadBlockFileLedger.ledgerFetchHeaders, MonadBlockFileLedger.fetchHeaders,
      MonadBlockFileLedger.getHeader?, htwo, BLOCKSYNC_MAX_NUM_HEADERS]
  have hnone : get? l'.blockPayloadCache 0 = none := by
    rw [hcache]
    simp only [BlockCache.addBlock, BlockCache.dropBlock, get?_set, get?_remove]
    rfl
  have hhydrated : l'.isCacheHydrated = true := by
    rw [hcache]
    simp [BlockCache.isCacheHydrated, BlockCache.addBlock, BlockCache.dropBlock, hl.size, hlen]
  change l'.ledgerFetchPayload 0 = none
  simp [MonadBlockFileLedger.ledgerFetchPayload, hnone, hhydrated]

end MonadBft
