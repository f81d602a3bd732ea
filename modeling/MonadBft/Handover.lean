import MonadBft.Ideal
import MonadBft.StateSync

/-!
# From syncing to live

What the sync phase hands over when a node goes live, and that no handler stops on the way.
Both are proved along runs of the system (`SyncRun`): each handler meets a combination of root,
database status and queue that it can deal with (`SystemInv`).

The point is that a new root is always above the old one. So a report for an earlier root is
below the target of the present one, and is dropped, and a report for the present root can
only come after it was asked for (`SyncInv.targets`).

The execution state is that of a block below the root, and the validators of the locked epochs
are compared with those in that state. An epoch is locked by the last block of the epoch
before. If that block is among the last `executionDelay` blocks up to the root, its effect is
not in the state yet, and a node restarted there stops (`System.unexpected_locked_valset`).
-/

set_option linter.unusedSectionVars false

namespace MonadBft

open BlockBuffer List SyncCommand SyncState ConsensusFullBlock

variable {T : Types} {env : Env T} {cfg : SyncConfig env} {backend : SyncBackend T}
  {start : SyncStart T} {committed : ConsensusFullBlock env → Prop}
  {valset : ℕ → List ValidatorData} {blockBuffer : BlockBuffer env}

/-! ## What is handed over -/

/-- The execution result of the block `executionDelay` below the root has been reported, by
statesync or by the database. -/
def Reported (cfg : SyncConfig env) (backend : SyncBackend T) (input : Input env)
    (root : RootInfo T) (blocks : List (ConsensusFullBlock env)) : Prop :=
  input = .doneSync (root.seqNum - cfg.executionDelay) ∨
    ∃ id, backend.getExecutionResult id (root.seqNum - cfg.executionDelay) = true ∧
      (root.blockId = env.GENESIS_BLOCK_ID ∧ id = env.GENESIS_BLOCK_ID ∨
        ∃ b ∈ blocks, b.getSeqNum = root.seqNum - cfg.executionDelay + 1 ∧ b.getParentId = id)

/-- The committed blocks that a node starts from when it goes live in handling `input`. -/
structure Handover (cfg : SyncConfig env) (backend : SyncBackend T) (input : Input env)
    (root : RootInfo T) (cmds : List (SyncCommand env))
    (blocks : List (ConsensusFullBlock env)) : Prop where
  policy : cmds.filterMap resetBlockPolicy? = [blocks]
  txPool : cmds.filterMap txPoolReset? = [blocks]
  genesis : root.blockId = env.GENESIS_BLOCK_ID → blocks = []
  length : root.blockId ≠ env.GENESIS_BLOCK_ID → blocks.length = cfg.executionDelay * 2 ∧
    blocks.getLast?.map getId = some root.blockId
  numbered : Numbered getSeqNum (root.seqNum + 1 - blocks.length) blocks
  linked : blocks.IsChain fun b c => c.getParentId = b.getId
  reported : Reported cfg backend input root blocks

/-- The failures that are not excluded: the two that the code announces, and a forkpoint
whose certificate is of no known epoch. -/
def SyncPanic.Allowed (cfg : SyncConfig env) (start : SyncStart T) (panic : SyncPanic) : Prop :=
  panic.isDocumented = true ∨ panic = .consensus .epochUnavailable ∧
    cfg.epochManager.getEpoch (start.highCertificate.round + 1) = none

/-- The block that locks the validators of an epoch, the last one of the epoch before, is at
most `n`. -/
def LockedBy (cfg : SyncConfig env) (epoch n : ℕ) : Prop :=
  (epoch - 1) * cfg.epochManager.epochLength ≤ n + 1

/-- The validators of an epoch are in the state of every block from the one that locks them
on. -/
def SyncBackend.HoldsValsets (cfg : SyncConfig env) (valset : ℕ → List ValidatorData)
    (backend : SyncBackend T) : Prop :=
  ∀ epoch n, LockedBy cfg epoch n →
    sameValData (valset epoch) (backend.readValsetAtBlock n epoch) = true

/-- The root of a forkpoint is committed, its validators are those of their epochs, and each of
these epochs was locked at least `executionDelay` blocks below the root. -/
structure SyncStart.Settled (cfg : SyncConfig env) (committed : ConsensusFullBlock env → Prop)
    (valset : ℕ → List ValidatorData) (start : SyncStart T) : Prop where
  committed : IsCommitted committed start.root
  valset : ∀ locked ∈ start.lockedEpochValidators, locked.validators = valset locked.epoch
  lockedBy : ∀ locked ∈ start.lockedEpochValidators, cfg.stakingActivation ≤ locked.epoch →
    (start.root = env.GENESIS_BLOCK_ID → LockedBy cfg locked.epoch 0) ∧
    ∀ b : ConsensusFullBlock env, b.getId = start.root →
      LockedBy cfg locked.epoch (b.getSeqNum - cfg.executionDelay)

/-- A committed block carries the execution result of the block `executionDelay` below it. -/
def CarriesResults (cfg : SyncConfig env) (committed : ConsensusFullBlock env → Prop) : Prop :=
  ∀ b : ConsensusFullBlock env, committed b → cfg.executionDelay ≤ b.getSeqNum →
    ∃ header, cfg.executionResults b.header.executionInputs = [header] ∧
      header.number + cfg.executionDelay = b.getSeqNum

namespace SyncState.Outcome

/-- A handler fails with a panic in `E`, leaves the node syncing with `S` or live with `L`. -/
def Meets (E : SyncPanic → Prop) (S : SyncState env → List (SyncCommand env) → Prop)
    (L : Node env → List (SyncCommand env) → Prop) : Outcome env → Prop
  | .error panic => E panic
  | .ok (.sync s, cmds) => S s cmds
  | .ok (.live node, cmds) => L node cmds

theorem Meets.mono {E : SyncPanic → Prop} {S S' : SyncState env → List (SyncCommand env) → Prop}
    {L : Node env → List (SyncCommand env) → Prop} {o : Outcome env} (h : Meets E S L o)
    (hS : ∀ s cmds, S s cmds → S' s cmds) : Meets E S' L o := by
  rcases o with panic | ⟨s | node, cmds⟩
  · exact h
  · exact hS s cmds h
  · exact h

end SyncState.Outcome

/-! ## The handlers -/

section Handlers

variable {s : SyncState env} {targets : List ℕ} {chain : List (ConsensusFullBlock env)}
  {info : RootInfo T} {b : ConsensusFullBlock env} {input : Input env}

theorem SyncState.delaySeqNum_eq (seqNum : ℕ) :
    delaySeqNum cfg seqNum = seqNum - cfg.executionDelay := by
  unfold delaySeqNum
  omega

/-- What does not change while a node syncs. -/
structure SyncFrame (cfg : SyncConfig env) (start : SyncStart T) (s : SyncState env) : Prop where
  minNumBlocks : s.blockBuffer.minNumBlocks = cfg.executionDelay * 2
  locked : s.lockedEpochValidators = start.lockedEpochValidators
  certificate : s.highCertificate = start.highCertificate ∨
    (cfg.epochManager.getEpoch (s.highCertificate.round + 1)).isSome = true

/-- The chain below the root is long enough to start from. -/
structure Ready (cfg : SyncConfig env) (s : SyncState env)
    (chain : List (ConsensusFullBlock env)) (info : RootInfo T) : Prop where
  rootInfo : s.blockBuffer.rootInfo = some info
  walk : s.blockBuffer.rootParentChain = some chain
  blockId : info.blockId = s.blockBuffer.root
  parents : ParentChain s.blockBuffer.root chain
  genesis : s.blockBuffer.root = env.GENESIS_BLOCK_ID → chain = [] ∧ info.seqNum = 0
  block : s.blockBuffer.root ≠ env.GENESIS_BLOCK_ID → ∃ b,
    s.blockBuffer.getFullBlock s.blockBuffer.root = some b ∧ chain.head? = some b ∧
      info.seqNum = b.getSeqNum ∧ cfg.executionDelay * 2 ≤ chain.length

theorem Ready.blocks (hc : CommittedChain committed) (h : Ready cfg s chain info)
    (hroot : IsCommitted committed s.blockBuffer.root) (hdelay : 1 ≤ cfg.executionDelay) :
    let blocks := (chain.take (cfg.executionDelay * 2)).reverse
    (info.blockId = env.GENESIS_BLOCK_ID → blocks = []) ∧
    (info.blockId ≠ env.GENESIS_BLOCK_ID → blocks.length = cfg.executionDelay * 2 ∧
      blocks.getLast?.map getId = some info.blockId) ∧
    Numbered getSeqNum (info.seqNum + 1 - blocks.length) blocks ∧
    blocks.IsChain fun b c => c.getParentId = b.getId := by
  intro blocks
  have hlinked : blocks.IsChain fun b c => c.getParentId = b.getId := (h.parents.take _).linked
  rw [h.blockId]
  by_cases hgen : s.blockBuffer.root = env.GENESIS_BLOCK_ID
  · have hnil : blocks = [] := by
      rw [show blocks = (chain.take (cfg.executionDelay * 2)).reverse from rfl,
        (h.genesis hgen).1, take_nil, reverse_nil]
    refine ⟨fun _ => hnil, fun hne => absurd hgen hne, ?_, hlinked⟩
    rw [hnil]
    trivial
  · obtain ⟨b, hb, hhead, hseq, hlen⟩ := h.block hgen
    have hlength : (chain.take (cfg.executionDelay * 2)).length = cfg.executionDelay * 2 := by
      rw [length_take]
      omega
    have hhead' : (chain.take (cfg.executionDelay * 2)).head? = some b := by
      rw [List.head?_take, if_neg (by omega), hhead]
    obtain ⟨-, hnum⟩ := (h.parents.take (cfg.executionDelay * 2)).numbered hc hroot hhead'
    have hblocks : blocks.length = (chain.take (cfg.executionDelay * 2)).length := length_reverse
    refine ⟨fun heq => absurd heq hgen, fun _ => ⟨hblocks.trans hlength, ?_⟩, ?_, hlinked⟩
    · rw [List.getLast?_reverse, hhead', Option.map_some, (getFullBlock_eq_some hb).2]
    · rw [hblocks, hseq]
      exact hnum

theorem committedBlocks_spec (hc : CommittedChain committed) (hdelay : 1 ≤ cfg.executionDelay)
    (hf : SyncFrame cfg start s) (hroot : IsCommitted committed s.blockBuffer.root)
    (hgen : s.blockBuffer.root = env.GENESIS_BLOCK_ID → s.blockBuffer.fullBlocks = []) :
    (s.blockBuffer.root ≠ env.GENESIS_BLOCK_ID ∧ ¬ s.blockBuffer.Complete ∧
        ∃ range, s.committedBlocks = .ok (.inl range)) ∨
      ∃ chain info, s.committedBlocks = .ok (.inr (chain, info)) ∧ Ready cfg s chain info := by
  obtain ⟨chain, hchain⟩ := exists_rootParentChain hc hroot
  obtain ⟨hparent, hhead, -⟩ := parentChain_spec hchain
  unfold committedBlocks needsBlocksync
  by_cases hg : s.blockBuffer.root = env.GENESIS_BLOCK_ID
  · have hnone : s.blockBuffer.getFullBlock s.blockBuffer.root = none := by
      rw [getFullBlock, hgen hg]
      rfl
    have hnil : chain = [] := List.head?_eq_none_iff.mp (hhead.trans hnone)
    have hinfo : s.blockBuffer.rootInfo = some (.genesis env) := if_pos hg
    refine .inr ⟨chain, .genesis env, ?_, hinfo, hchain, hg.symm, hparent, fun _ => ⟨hnil, rfl⟩,
      fun hne => absurd hg hne⟩
    simp only [hchain, if_pos hg, hinfo]
  · rw [if_neg hg, hchain, Option.map_some]
    cases hmissing : s.blockBuffer.missingRange chain with
    | some range =>
      refine .inl ⟨hg, ?_, range, rfl⟩
      rintro ⟨chain', hchain', hlen⟩
      cases hchain.symm.trans hchain'
      have := hf.minNumBlocks
      unfold missingRange at hmissing
      split at hmissing
      next hnil =>
        rw [List.getLast?_eq_none_iff] at hnil
        rw [hnil, length_nil] at hlen
        omega
      · rw [if_neg (by omega)] at hmissing
        cases hmissing
    | none =>
      unfold missingRange at hmissing
      split at hmissing
      · cases hmissing
      next last hlast =>
      split at hmissing
      · cases hmissing
      next hlen =>
      have hne : chain ≠ [] := by
        rintro rfl
        cases hlast
      obtain ⟨b, hb⟩ := Option.isSome_iff_exists.mp (isSome_head?.mpr hne)
      have hblock := hhead.symm.trans hb
      obtain ⟨info, hinfo, hseq, hid⟩ := exists_rootInfo hg hblock
      refine .inr ⟨chain, info, by simp only [hinfo], hinfo, hchain, hid, hparent,
        fun heq => absurd heq hg, fun _ => ⟨b, hblock, hb, hseq, ?_⟩⟩
      rw [hf.minNumBlocks] at hlen
      omega

/-- The locked epochs were locked early enough below the root. -/
structure Locked (cfg : SyncConfig env) (valset : ℕ → List ValidatorData) (start : SyncStart T)
    (rootSeqNum : ℕ) : Prop where
  valset : ∀ locked ∈ start.lockedEpochValidators, locked.validators = valset locked.epoch
  lockedBy : ∀ locked ∈ start.lockedEpochValidators, cfg.stakingActivation ≤ locked.epoch →
    LockedBy cfg locked.epoch (rootSeqNum - cfg.executionDelay)

theorem lockedValsetsHeld_of_locked (hf : SyncFrame cfg start s)
    (hl : Locked cfg valset start info.seqNum) (hdb : backend.HoldsValsets cfg valset) :
    s.lockedValsetsHeld cfg backend (delaySeqNum cfg info.seqNum) = true := by
  unfold lockedValsetsHeld
  rw [hf.locked, delaySeqNum_eq, all_eq_true]
  intro locked hmem
  by_cases hact : cfg.stakingActivation ≤ locked.epoch
  · rw [hl.valset locked hmem, hdb locked.epoch _ (hl.lockedBy locked hmem hact), Bool.or_true]
  · rw [decide_eq_false hact]
    rfl

/-- A command that resets nothing and forwards nothing. -/
structure SyncCommand.IsPlain (c : SyncCommand env) : Prop where
  policy : c.resetBlockPolicy? = none
  txPool : c.txPoolReset? = none
  forwarded : c.forwarded? = none

theorem SyncState.firstEvents_plain (s : SyncState env) (round : ℕ) :
    ∀ c ∈ s.firstEvents round, c.IsPlain := by
  intro c hc
  unfold firstEvents at hc
  simp only [mem_append, mem_cons, not_mem_nil, or_false, mem_map] at hc
  rcases hc with ((rfl | rfl) | ⟨p, -, rfl⟩) | rfl <;> exact ⟨rfl, rfl, rfl⟩

theorem SyncCommand.commitBlock_plain (blocks : List (ConsensusFullBlock env)) :
    ∀ c ∈ blocks.flatMap commitBlock, c.IsPlain := by
  intro c hc
  obtain ⟨b, -, hc⟩ := mem_flatMap.mp hc
  unfold commitBlock at hc
  simp only [mem_cons, not_mem_nil, or_false] at hc
  rcases hc with rfl | rfl | rfl <;> exact ⟨rfl, rfl, rfl⟩

/-- The node is live and has been handed its blocks. -/
def GoesLive (cfg : SyncConfig env) (backend : SyncBackend T) (input : Input env) (node : Node env)
    (cmds : List (SyncCommand env)) : Prop :=
  cmds.any isStartExecution = true ∧ cmds.filterMap forwarded? = [] ∧
    ∃ blocks, Handover cfg backend input node.pendingBlockTree.root cmds blocks

/-- Going live succeeds, up to the failures that are allowed. -/
theorem startConsensus_meets (hc : CommittedChain committed) (hdelay : 1 ≤ cfg.executionDelay)
    (hf : SyncFrame cfg start s) (hroot : IsCommitted committed s.blockBuffer.root)
    (hr : Ready cfg s chain info) (hl : Locked cfg valset start info.seqNum)
    (hdb : backend.HoldsValsets cfg valset)
    (hreported : Reported cfg backend input info (chain.take (cfg.executionDelay * 2)).reverse) :
    (s.startConsensus cfg backend chain info).Meets (SyncPanic.Allowed cfg start)
      (fun _ _ => False) (GoesLive cfg backend input) := by
  unfold startConsensus
  dsimp only
  split
  · rw [if_pos (lockedValsetsHeld_of_locked hf hl hdb)]
    cases hnew : Node.new env cfg.epochManager info s.highCertificate with
    | error panic =>
      -- the certificate of a new root is of a known epoch
      unfold Node.new Pacemaker.new at hnew
      split at hnew
      next hepoch =>
        cases hnew
        refine .inr ⟨rfl, ?_⟩
        rcases hf.certificate with heq | hsome
        · rw [← heq]
          exact hepoch
        · rw [hepoch] at hsome
          cases hsome
      · cases hnew
    | ok node =>
      have hnode : node.pendingBlockTree.root = info := by
        unfold Node.new Pacemaker.new at hnew
        split at hnew
        · cases hnew
        · cases hnew
          rfl
      obtain ⟨hgen, hlen, hnum, hlinked⟩ := hr.blocks hc hroot hdelay
      have hfirst := s.firstEvents_plain node.getCurrentRound
      have hcommit := commitBlock_plain (chain.take (cfg.executionDelay * 2)).reverse
      have hnone : ∀ {α : Type} (f : SyncCommand env → Option α), (∀ c, c.IsPlain → f c = none) →
          ((chain.take (cfg.executionDelay * 2)).reverse.flatMap commitBlock).filterMap
            f = [] ∧ (s.firstEvents node.getCurrentRound).filterMap f = [] :=
        fun f hplain => ⟨filterMap_eq_nil_iff.mpr fun c hc => hplain c (hcommit c hc),
          filterMap_eq_nil_iff.mpr fun c hc => hplain c (hfirst c hc)⟩
      refine ⟨by simp [isStartExecution], ?_, _, ?_, ?_, ?_, ?_, ?_, hlinked, ?_⟩
      · simp only [filterMap_append, hnone _ fun _ h => h.forwarded]
        rfl
      · simp only [filterMap_append, hnone _ fun _ h => h.policy]
        rfl
      · simp only [filterMap_append, hnone _ fun _ h => h.txPool]
        rfl
      · rw [hnode]
        exact hgen
      · rw [hnode]
        exact hlen
      · rw [hnode]
        exact hnum
      · rw [hnode]
        exact hreported
  · exact .inl rfl

/-- The commands of a step that leaves the node syncing. -/
structure StaysSyncing (cfg : SyncConfig env) (s s' : SyncState env)
    (cmds : List (SyncCommand env)) : Prop where
  forwarded : cmds.filterMap forwarded? = []
  /-- Statesync is asked for the target of the root, if it was not before. -/
  target : s' = s ∧ cmds.filterMap requestSync? = [] ∨
    s.dbStatus = .waiting ∧ s' = { s with dbStatus := .started } ∧
      s.blockBuffer.Complete ∧ ∃ b n, s.blockBuffer.getFullBlock s.blockBuffer.root = some b ∧
        cmds.filterMap requestSync? = [n] ∧ n + cfg.executionDelay = b.getSeqNum

/-- The block after the one whose execution state is needed is among those handed over. -/
theorem Ready.delayBlockId (hc : CommittedChain committed) (h : Ready cfg s chain info)
    (hroot : IsCommitted committed s.blockBuffer.root) (hdelay : 1 ≤ cfg.executionDelay) :
    ∃ id, delayBlockId cfg chain info.seqNum = .ok id ∧
      (info.blockId = env.GENESIS_BLOCK_ID ∧ id = env.GENESIS_BLOCK_ID ∨
        ∃ b ∈ (chain.take (cfg.executionDelay * 2)).reverse,
          b.getSeqNum = info.seqNum - cfg.executionDelay + 1 ∧ b.getParentId = id) := by
  unfold SyncState.delayBlockId
  rw [delaySeqNum_eq]
  by_cases hgen : s.blockBuffer.root = env.GENESIS_BLOCK_ID
  · obtain ⟨rfl, hzero⟩ := h.genesis hgen
    refine ⟨env.GENESIS_BLOCK_ID, ?_, .inl ⟨h.blockId.trans hgen, rfl⟩⟩
    exact if_pos hzero
  obtain ⟨b, hb, hhead, hseq, hlen⟩ := h.block hgen
  obtain ⟨hle, hnum⟩ := h.parents.numbered hc hroot hhead
  -- one block of the chain has the number, and it is among the last two delays
  obtain ⟨c, hc', hkey⟩ := hnum.exists_key (m := info.seqNum - cfg.executionDelay + 1)
    (by omega) (by rw [length_reverse]; omega)
  cases hfind : chain.find? fun b =>
      decide (b.getSeqNum = info.seqNum - cfg.executionDelay + 1) with
  | none => exact absurd hkey (by simpa using List.find?_eq_none.mp hfind c (by simpa using hc'))
  | some d =>
    have hdkey : d.getSeqNum = info.seqNum - cfg.executionDelay + 1 := by
      simpa using List.find?_some hfind
    refine ⟨_, rfl, .inr ⟨d, ?_, hdkey, rfl⟩⟩
    have hd : d ∈ chain.reverse := mem_reverse.mpr (mem_of_find?_eq_some hfind)
    rw [← take_append_drop (cfg.executionDelay * 2) chain, reverse_append, mem_append] at hd
    refine hd.resolve_left fun hlow => ?_
    -- blocks further down have lower numbers
    rw [← take_append_drop (cfg.executionDelay * 2) chain, reverse_append,
      Numbered.append_iff] at hnum
    have := (hnum.1.bounds hlow).2
    simp only [length_reverse, length_drop, length_append, length_take]
      at this
    omega

variable (hc : CommittedChain committed) (hresults : CarriesResults cfg committed)
  (hdelay : 1 ≤ cfg.executionDelay) (hdb : backend.HoldsValsets cfg valset)

include hc hresults hdelay hdb

/-- A report of the target of a root whose blocks are there. -/
theorem doneSync_target_meets (hf : SyncFrame cfg start s)
    (hroot : IsCommitted committed s.blockBuffer.root) (hstarted : s.dbStatus = .started)
    (hblocks : s.committedBlocks = .ok (.inr (chain, info))) (hr : Ready cfg s chain info)
    (hl : Locked cfg valset start info.seqNum)
    (hreported : Reported cfg backend input info (chain.take (cfg.executionDelay * 2)).reverse) :
    (doneSync cfg backend (info.seqNum - cfg.executionDelay) s).Meets
      (SyncPanic.Allowed cfg start) (fun _ _ => False) (GoesLive cfg backend input) := by
  have htarget : s.blockBuffer.rootSeqNum.map (delaySeqNum cfg) =
      some (info.seqNum - cfg.executionDelay) := by
    rw [rootSeqNum, hr.rootInfo, Option.map_some, Option.map_some, delaySeqNum_eq]
  unfold doneSync
  rw [if_neg (by rw [hstarted]; decide), htarget]
  dsimp only
  rw [if_neg (lt_irrefl _), if_neg (not_not.mpr rfl), if_neg (not_not.mpr hstarted)]
  unfold maybeStartSynced
  rw [show committedBlocks { s with dbStatus := .done } = _ from hblocks]
  exact startConsensus_meets hc hdelay { hf with } hroot { hr with } hl hdb hreported

theorem maybeStartConsensus_meets (hf : SyncFrame cfg start s)
    (hroot : IsCommitted committed s.blockBuffer.root)
    (hgen : s.blockBuffer.root = env.GENESIS_BLOCK_ID →
      s.blockBuffer.fullBlocks = [] ∧ Locked cfg valset start 0)
    (hl : ∀ b : ConsensusFullBlock env, b.getId = s.blockBuffer.root →
      Locked cfg valset start b.getSeqNum)
    (hdb' : s.dbStatus ≠ .done) (hstarted : s.blockBuffer.root = env.GENESIS_BLOCK_ID →
      s.dbStatus = .waiting) :
    (s.maybeStartConsensus cfg backend).Meets (SyncPanic.Allowed cfg start)
      (fun s' cmds => s.blockBuffer.root ≠ env.GENESIS_BLOCK_ID ∧ StaysSyncing cfg s s' cmds)
      (GoesLive cfg backend input) := by
  unfold maybeStartConsensus
  rcases committedBlocks_spec hc hdelay hf hroot fun h => (hgen h).1 with
    ⟨hne, -, range, hblocks⟩ | ⟨chain, info, hblocks, hr⟩
  · rw [hblocks]
    exact ⟨hne, rfl, .inl ⟨rfl, rfl⟩⟩
  · rw [hblocks]
    have hlocked : Locked cfg valset start info.seqNum := by
      by_cases hg : s.blockBuffer.root = env.GENESIS_BLOCK_ID
      · rw [(hr.genesis hg).2]
        exact (hgen hg).2
      · obtain ⟨b, hb, -, hseq, -⟩ := hr.block hg
        rw [hseq]
        exact hl b (getFullBlock_eq_some hb).2
    cases hstatus : s.dbStatus with
    | done => exact absurd hstatus hdb'
    | started =>
      refine ⟨fun hg => ?_, rfl, .inl ⟨rfl, rfl⟩⟩
      rw [hstarted hg] at hstatus
      cases hstatus
    | waiting =>
      unfold startDb
      obtain ⟨id, hid, hdelayBlock⟩ := hr.delayBlockId hc hroot hdelay
      dsimp only
      rw [hid]
      dsimp only
      rw [delaySeqNum_eq]
      split
      next hexecuted =>
        exact (doneSync_target_meets hc hresults hdelay hdb (s := { s with dbStatus := .started })
          { hf with } hroot rfl hblocks { hr with } hlocked
          (.inr ⟨id, hexecuted, hdelayBlock⟩)).mono fun _ _ h => h.elim
      · -- the root block carries the header to sync to
        by_cases hg : s.blockBuffer.root = env.GENESIS_BLOCK_ID
        · have hnone : rootDelayedExecutionResult cfg { s with dbStatus := .started } = none := by
            simp only [rootDelayedExecutionResult, getFullBlock,
              (hgen hg).1, List.find?_nil, Option.map_none]
          rw [hnone]
          exact .inl rfl
        · obtain ⟨b, hb, hhead, hseq, hlen⟩ := hr.block hg
          have hbid := (getFullBlock_eq_some hb).2
          have hle := (hr.parents.numbered hc hroot hhead).1
          obtain ⟨header, hheader, hnumber⟩ := hresults b (hroot b hbid) (by omega)
          have hsome : rootDelayedExecutionResult cfg { s with dbStatus := .started } =
              some [header] := by
            simp only [rootDelayedExecutionResult, hb, Option.map_some, hheader]
          rw [hsome]
          exact ⟨hg, rfl, .inr ⟨hstatus, rfl, ⟨chain, hr.walk, by rw [hf.minNumBlocks]; exact hlen⟩, b,
            header.number, hb, rfl, hnumber⟩⟩

end Handlers

/-! ## While a node syncs -/

/-- What holds of a built node that syncs, with the targets that statesync was given. -/
structure SyncInv (cfg : SyncConfig env) (committed : ConsensusFullBlock env → Prop)
    (valset : ℕ → List ValidatorData) (start : SyncStart T) (s : SyncState env)
    (targets : List ℕ) : Prop where
  frame : SyncFrame cfg start s
  root_ne : s.blockBuffer.root ≠ env.GENESIS_BLOCK_ID
  committed : IsCommitted committed s.blockBuffer.root
  locked : ∀ b : ConsensusFullBlock env, b.getId = s.blockBuffer.root →
    Locked cfg valset start b.getSeqNum
  notDone : s.dbStatus ≠ .done
  complete : s.dbStatus = .started → s.blockBuffer.Complete
  /-- Statesync was given no target above that of the root, and that one only if it was asked
  for. -/
  targets : ∀ n ∈ targets, ∀ b : ConsensusFullBlock env, b.getId = s.blockBuffer.root →
    n + cfg.executionDelay ≤ b.getSeqNum ∧
      (n + cfg.executionDelay = b.getSeqNum → s.dbStatus = .started)

section Invariant

variable {s s' : SyncState env} {targets : List ℕ} {cmds : List (SyncCommand env)} {n : ℕ}
  {newRoot : ConsensusBlockHeader T} {newHighQc : QuorumCertificate T}

variable (hinj : Function.Injective env.getId)

include hinj

namespace SyncInv

/-- The target is asked for once the blocks are there. -/
theorem of_stays (h : SyncInv cfg committed valset start s targets)
    (hs : StaysSyncing cfg s s' cmds) :
    SyncInv cfg committed valset start s' (targets ++ cmds.filterMap requestSync?) := by
  rcases hs.target with ⟨rfl, hnone⟩ | ⟨-, rfl, hcomplete, b, n, hb, hn, hseq⟩
  · rw [hnone, append_nil]
    exact h
  refine ⟨{ h.frame with }, h.root_ne, h.committed, h.locked, by simp, fun _ => hcomplete,
    fun m hm c hc => ⟨?_, fun _ => rfl⟩⟩
  rw [hn, mem_append, mem_singleton] at hm
  rcases hm with hm | rfl
  · exact (h.targets m hm c hc).1
  · -- the block that the target belongs to is the root
    have hheader : c.header = b.header := hinj (hc.trans (getFullBlock_eq_some hb).2.symm)
    exact (hseq.trans (congrArg ConsensusBlockHeader.seqNum hheader.symm)).le

/-- A new root is above the present one, and nothing has been asked for it. -/
theorem requestSync (hgenesis : ∀ h, env.getId h ≠ env.GENESIS_BLOCK_ID)
    (h : SyncInv cfg committed valset start s targets) {b : ConsensusFullBlock env}
    (hb : b.getId = s.blockBuffer.root) (hlt : b.getSeqNum < newRoot.seqNum)
    (hcommitted : IsCommitted committed (env.getId newRoot))
    (hepoch : (cfg.epochManager.getEpoch (newHighQc.getRound + 1)).isSome = true) :
    SyncInv cfg committed valset start
      { s with
        highCertificate := .qc newHighQc
        blockBuffer := s.blockBuffer.reRoot newRoot
        dbStatus := .waiting
        updatingTarget := false } targets := by
  have hseq : ∀ c : ConsensusFullBlock env, c.getId = env.getId newRoot →
      c.getSeqNum = newRoot.seqNum := fun c hc => congrArg ConsensusBlockHeader.seqNum (hinj hc)
  refine ⟨⟨h.frame.minNumBlocks, h.frame.locked, .inr hepoch⟩, hgenesis newRoot, hcommitted,
    fun c hc => ?_, by simp, fun hst => (nomatch hst), fun n hn c hc => ?_⟩
  · rw [hseq c hc]
    obtain ⟨hvalset, hlocked⟩ := h.locked b hb
    refine ⟨hvalset, fun locked hmem hact => ?_⟩
    have := hlocked locked hmem hact
    unfold LockedBy at this ⊢
    omega
  · rw [hseq c hc]
    have := (h.targets n hn b hb).1
    exact ⟨by omega, fun _ => by omega⟩

omit hinj in
/-- Blocks are added, and the root stays. -/
theorem keeps_root (hc : CommittedChain committed)
    (h : SyncInv cfg committed valset start s targets) (hsub : s.blockBuffer.Included blockBuffer)
    (hroot : blockBuffer.root = s.blockBuffer.root)
    (hmin : blockBuffer.minNumBlocks = s.blockBuffer.minNumBlocks) (updatingTarget : Bool) :
    SyncInv cfg committed valset start { s with blockBuffer, updatingTarget } targets where
  frame := ⟨hmin.trans h.frame.minNumBlocks, h.frame.locked, h.frame.certificate⟩
  root_ne := hroot.symm ▸ h.root_ne
  committed := hroot.symm ▸ h.committed
  locked := hroot.symm ▸ h.locked
  notDone := h.notDone
  complete hst := (h.complete hst).mono hc h.committed hsub hroot hmin
  targets := hroot.symm ▸ h.targets

end SyncInv

/-- A handler keeps the invariant and forwards nothing, or the node goes live. -/
def SyncInv.KeptBy (cfg : SyncConfig env) (backend : SyncBackend T)
    (committed : ConsensusFullBlock env → Prop) (valset : ℕ → List ValidatorData)
    (start : SyncStart T) (targets : List ℕ) (input : Input env) : Outcome env → Prop :=
  Outcome.Meets (SyncPanic.Allowed cfg start)
    (fun s' cmds => SyncInv cfg committed valset start s' (targets ++ cmds.filterMap requestSync?) ∧
      cmds.filterMap forwarded? = []) (GoesLive cfg backend input)

variable (hc : CommittedChain committed) (hresults : CarriesResults cfg committed)
  (hdelay : 1 ≤ cfg.executionDelay) (hdb : backend.HoldsValsets cfg valset)

include hc hresults hdelay hdb

/-- The invariant is kept when a node checks whether it can go live. -/
theorem SyncInv.maybeStartConsensus (h : SyncInv cfg committed valset start s targets)
    {input : Input env} :
    KeptBy cfg backend committed valset start targets input (s.maybeStartConsensus cfg backend) :=
  (maybeStartConsensus_meets hc hresults hdelay hdb h.frame h.committed
    (fun hg => absurd hg h.root_ne) h.locked h.notDone fun hg => absurd hg h.root_ne).mono
    fun _ _ hs => ⟨h.of_stays hinj hs.2, hs.2.forwarded⟩

/-- A report from statesync is of an old target, or of the present one, which was asked for. -/
theorem SyncInv.doneSync (h : SyncInv cfg committed valset start s targets) (hn : n ∈ targets) :
    KeptBy cfg backend committed valset start targets (.doneSync n)
      (s.doneSync cfg backend n) := by
  have hdrop : SyncInv cfg committed valset start s (targets ++ []) ∧
      ([] : List (SyncCommand env)).filterMap forwarded? = [] :=
    ⟨by rw [append_nil]; exact h, rfl⟩
  cases hinfo : s.blockBuffer.rootInfo with
  | none =>
    unfold SyncState.doneSync rootSeqNum
    rw [if_neg h.notDone, hinfo]
    exact hdrop
  | some info =>
    obtain ⟨b, hb, hseq, -⟩ := rootInfo_eq_some h.root_ne hinfo
    obtain ⟨hle, hasked⟩ := h.targets n hn b (getFullBlock_eq_some hb).2
    by_cases hlt : n < info.seqNum - cfg.executionDelay
    · unfold SyncState.doneSync rootSeqNum
      rw [if_neg h.notDone, hinfo, Option.map_some, Option.map_some]
      dsimp only
      rw [delaySeqNum_eq, if_pos hlt]
      exact hdrop
    · have hstarted := hasked (by omega)
      obtain rfl : n = info.seqNum - cfg.executionDelay := by omega
      rcases committedBlocks_spec hc hdelay h.frame h.committed fun hg => absurd hg h.root_ne with
        ⟨-, hincomplete, -⟩ | ⟨chain, info', hblocks, hr⟩
      · exact absurd (h.complete hstarted) hincomplete
      · cases hinfo.symm.trans hr.rootInfo
        refine (doneSync_target_meets hc hresults hdelay hdb h.frame h.committed hstarted hblocks hr
          ?_ (.inl rfl)).mono fun _ _ hf => hf.elim
        rw [hseq]
        exact h.locked b (getFullBlock_eq_some hb).2

end Invariant

/-! ## Runs of the system -/

/-- What holds of the system in every run. -/
structure SystemInv (cfg : SyncConfig env) (committed : ConsensusFullBlock env → Prop)
    (valset : ℕ → List ValidatorData) (start : SyncStart T) (sys : System env) : Prop where
  unbuilt : sys.built = false → sys = System.new cfg start
  /-- A new root is only at the head of the queue. -/
  tail : ∀ e ∈ sys.loopback.tail, e.isBlockSync = true
  /-- It is committed, above the present root, and the QC is of a known epoch. -/
  pending : ∀ newRoot newHighQc queue, sys.loopback = .requestSync newRoot newHighQc :: queue →
    IsCommitted committed (env.getId newRoot) ∧
    (cfg.epochManager.getEpoch (newHighQc.getRound + 1)).isSome = true ∧
    ∃ s, sys.mode = .sync s ∧ ∃ b : ConsensusFullBlock env, b.getId = s.blockBuffer.root ∧
      b.getSeqNum < newRoot.seqNum
  syncing : sys.built = true → ∀ s, sys.mode = .sync s →
    SyncInv cfg committed valset start s sys.targets
  live : ∀ node, sys.mode = .live node → sys.executing = true

def SyncStep (cfg : SyncConfig env) (committed : ConsensusFullBlock env → Prop)
    (valset : ℕ → List ValidatorData) (sys : System env) (cmds : List (SyncCommand env))
    (sys' : System env) : Prop :=
  ∃ backend input, SyncBackend.HoldsValsets cfg valset backend ∧
    Input.Admissible cfg committed sys input ∧ sys.next cfg backend input = .ok (sys', cmds)

/-- A run of a node that starts from a forkpoint. -/
def SyncRun (cfg : SyncConfig env) (committed : ConsensusFullBlock env → Prop)
    (valset : ℕ → List ValidatorData) (start : SyncStart T) (cmds : List (SyncCommand env))
    (sys : System env) : Prop :=
  Reach (SyncStep cfg committed valset) (System.new cfg start) cmds sys

section Runs

variable {s : SyncState env} {sys sys' : System env} {input : Input env} {cmds : List (SyncCommand env)}

/-- A step of the system keeps the invariant and hands over when the node goes live, or fails
in an allowed way. -/
def System.StepMeets (cfg : SyncConfig env) (backend : SyncBackend T)
    (committed : ConsensusFullBlock env → Prop) (valset : ℕ → List ValidatorData)
    (start : SyncStart T) (sys : System env) (input : Input env) :
    Except SyncPanic (System env × List (SyncCommand env)) → Prop
  | .error panic => panic.Allowed cfg start
  | .ok (sys', cmds) => SystemInv cfg committed valset start sys' ∧
    ∀ node, sys.mode.isLive = false → sys'.mode = .live node →
      ∃ blocks, Handover cfg backend input node.pendingBlockTree.root cmds blocks

/-- The queue holds blocks only. -/
theorem SystemInv.queue_blockSync (h : SystemInv cfg committed valset start sys)
    (hlive : sys.mode.isLive = true) : ∀ e ∈ sys.loopback, e.isBlockSync = true := by
  intro e he
  cases hq : sys.loopback with
  | nil =>
    rw [hq] at he
    cases he
  | cons event queue =>
    rw [hq] at he
    rcases mem_cons.mp he with rfl | he
    · cases e with
      | blockSync range blocks => rfl
      | requestSync newRoot newHighQc =>
        obtain ⟨-, -, s, hs, -⟩ := h.pending _ _ _ hq
        rw [hs] at hlive
        cases hlive
    · exact h.tail e (by rw [hq]; exact he)

theorem SystemInv.of_queue (hbuilt : sys.built = true)
    (hqueue : ∀ e ∈ sys.loopback, e.isBlockSync = true)
    (hsync : ∀ s, sys.mode = .sync s → SyncInv cfg committed valset start s sys.targets)
    (hlive : ∀ node, sys.mode = .live node → sys.executing = true) :
    SystemInv cfg committed valset start sys where
  unbuilt hb := by
    rw [hbuilt] at hb
    cases hb
  tail e he := hqueue e (mem_of_mem_tail he)
  pending newRoot newHighQc queue hq := by
    have := hqueue (.requestSync newRoot newHighQc) (by rw [hq]; simp)
    cases this
  syncing _ := hsync
  live := hlive

/-- A handler that leaves the node syncing, or live with its blocks. -/
theorem System.handle_meets {handler : SyncState env → Outcome env}
    {live : Outcome env} (hmode : sys.mode = .sync s)
    (hqueue : ∀ e ∈ sys.loopback, e.isBlockSync = true)
    (h : SyncInv.KeptBy cfg backend committed valset start sys.targets input (handler s)) :
    System.StepMeets cfg backend committed valset start sys' input (sys.handle handler live) := by
  have hqueue' : ∀ mode cmds, cmds.filterMap forwarded? = [] →
      ∀ e ∈ (sys.exec mode cmds).loopback, e.isBlockSync = true := by
    intro mode cmds hnone e he
    rw [show (sys.exec mode cmds).loopback = _ from rfl, System.exec, hnone, append_nil] at he
    exact hqueue e he
  unfold System.handle
  rw [hmode]
  dsimp only
  rcases ho : handler s with panic | ⟨s' | node, cmds⟩
  · rw [ho] at h
    exact h
  · rw [ho] at h
    refine ⟨.of_queue rfl (hqueue' _ _ h.2) ?_ ?_, fun node _ hnode => by cases hnode⟩
    · intro s'' hs''
      cases hs''
      exact h.1
    · intro node hnode
      cases hnode
  · rw [ho] at h
    obtain ⟨hexec, hforwarded, hblocks⟩ := h
    refine ⟨.of_queue rfl (hqueue' _ _ hforwarded) ?_ ?_, fun node' _ hnode => ?_⟩
    · intro s'' hs''
      cases hs''
    · intro _ _
      exact (congrArg (sys.executing || ·) hexec).trans (Bool.or_true _)
    · obtain rfl := ConsensusMode.live.inj hnode
      exact hblocks

/-- An event that a live node leaves alone. -/
theorem System.exec_live_meets (h : SystemInv cfg committed valset start sys) {node : Node env}
    (hmode : sys.mode = .live node) {queue : List (LoopbackEvent env)}
    (hqueue : ∀ e ∈ queue, e ∈ sys.loopback) :
    System.StepMeets cfg backend committed valset start sys input
      (.ok (({ sys with loopback := queue } : System env).exec sys.mode [], [])) := by
  have hlive : sys.mode.isLive = true := by rw [hmode]; rfl
  refine ⟨.of_queue rfl ?_ ?_ ?_, fun node' hnot => ?_⟩
  · intro e he
    exact h.queue_blockSync hlive e (hqueue e (by simpa [System.exec] using he))
  · intro s hs
    rw [show (System.exec _ sys.mode []).mode = sys.mode from rfl, hmode] at hs
    cases hs
  · intro node' hnode
    simpa [System.exec] using h.live node hmode
  · rw [hlive] at hnot
    cases hnot

variable (hinj : Function.Injective env.getId)
  (hgenesis : ∀ h, env.getId h ≠ env.GENESIS_BLOCK_ID) (hc : CommittedChain committed)
  (hresults : CarriesResults cfg committed) (hdelay : 1 ≤ cfg.executionDelay)
  (hstart : start.Settled cfg committed valset) (hdb : backend.HoldsValsets cfg valset)
  {author : NodeId} {p : ProposalMessage T}

/-- What a validated proposal may ask for. -/
theorem handleProposal_forwards {newRoot : ConsensusBlockHeader T} {newHighQc : QuorumCertificate T}
    {vals : ValidatorsEpochMapping} (hroot : s.blockBuffer.root ≠ env.GENESIS_BLOCK_ID)
    (h : s.blockBuffer.handleProposal author p = .ok (some (newRoot, newHighQc), blockBuffer))
    (hvalid : p.validate env (epochToValidators env cfg.epochManager vals) cfg.epochManager =
      .ok ())
    (hfinal : ∀ parent header, p.tip.blockHeader.qc.getCommittableId env parent =
      .ok (some (env.getId header)) → IsCommitted committed (env.getId header)) :
    IsCommitted committed (env.getId newRoot) ∧
    (cfg.epochManager.getEpoch (newHighQc.getRound + 1)).isSome = true ∧
    ∃ b : ConsensusFullBlock env, b.getId = s.blockBuffer.root ∧ b.getSeqNum < newRoot.seqNum := by
  obtain ⟨_, _, heq, -, htarget⟩ := s.blockBuffer.handleProposal_spec author p
  obtain ⟨rfl, rfl⟩ := Prod.mk.inj (Except.ok.inj (h.symm.trans heq))
  obtain ⟨rfl, ⟨parent, hcommit⟩, rootSeqNum, hseq, hlt⟩ := htarget _ _ rfl
  refine ⟨hfinal parent newRoot hcommit, ?_, ?_⟩
  · have hepoch := getEpoch_of_verifyQc (verifyTip_ok (ProposalMessage.validate_ok hvalid).2.1).2.1
    exact EpochManager.isSome_getEpoch_of_le (Nat.le_succ _) (by rw [hepoch]; rfl)
  · obtain ⟨info, hinfo, rfl⟩ := Option.map_eq_some_iff.mp hseq
    obtain ⟨b, hb, hbseq, -⟩ := rootInfo_eq_some hroot hinfo
    exact ⟨b, (getFullBlock_eq_some hb).2, by omega⟩

include hinj hgenesis hc hresults hdelay hstart hdb

theorem System.build_meets :
    System.StepMeets cfg backend committed valset start (System.new cfg start) .build
      ((System.new cfg start).next cfg backend .build) := by
  unfold System.next
  refine System.handle_meets rfl (by simp [System.new]) ?_
  have hlocked : ∀ b : ConsensusFullBlock env, b.getId = start.root →
      Locked cfg valset start b.getSeqNum := fun b hb =>
    ⟨hstart.valset, fun locked hmem hact => (hstart.lockedBy locked hmem hact).2 b hb⟩
  refine (maybeStartConsensus_meets hc hresults hdelay hdb
    (⟨rfl, rfl, .inl rfl⟩ : SyncFrame cfg start _) hstart.committed
    (fun hg => ⟨rfl, hstart.valset, fun locked hmem hact => ?_⟩) hlocked (by simp) fun _ =>
      rfl).mono ?_
  · rw [Nat.zero_sub]
    exact (hstart.lockedBy locked hmem hact).1 hg
  · rintro s' cmds ⟨hne, hs⟩
    refine ⟨SyncInv.of_stays hinj ?_ hs, hs.forwarded⟩
    exact ⟨⟨rfl, rfl, .inl rfl⟩, hne, hstart.committed, hlocked, by simp, fun hst => (nomatch hst),
      by simp [System.new]⟩

omit hinj hgenesis hresults hdelay hstart hdb in
/-- A proposal arrives while the node syncs. -/
theorem System.proposal_meets (h : SystemInv cfg committed valset start sys)
    (hmode : sys.mode = .sync s) (hadm : (Input.proposal author p).Admissible cfg committed sys) :
    System.StepMeets cfg backend committed valset start sys (.proposal author p)
      (sys.next cfg backend (.proposal author p)) := by
  obtain ⟨hbuilt, hempty, ⟨vals, hvalid⟩, hfinal⟩ := hadm
  have hinv := h.syncing hbuilt s hmode
  obtain ⟨target, blockBuffer, hp, ⟨hroot, hmin, hblocks⟩, -⟩ :=
    s.blockBuffer.handleProposal_spec author p
  have hsub : s.blockBuffer.Included blockBuffer := by
    intro id b hb
    refine ⟨b, ?_, rfl⟩
    rw [getFullBlock, hblocks]
    exact hb
  have hkeep := hinv.keeps_root hc hsub hroot hmin
  unfold System.next
  -- unless a new root is asked for, nothing is put into the queue
  have hnothing : ∀ updatingTarget, s.handleProposal author p =
      .ok (.sync { s with blockBuffer, updatingTarget }, []) →
      System.StepMeets cfg backend committed valset start sys (.proposal author p)
        (sys.handle (handleProposal author p) (.ok (sys.mode, []))) := by
    intro updatingTarget heq
    refine System.handle_meets hmode (by simp [hempty]) ?_
    rw [heq]
    exact ⟨by rw [filterMap_nil, append_nil]; exact hkeep updatingTarget, rfl⟩
  cases target with
  | none => exact hnothing s.updatingTarget (by rw [SyncState.handleProposal, hp])
  | some target =>
    obtain ⟨newRoot, newHighQc⟩ := target
    cases hupdating : s.updatingTarget with
    | true =>
      refine hnothing true ?_
      rw [SyncState.handleProposal, hp]
      dsimp only
      rw [if_pos hupdating, ← hupdating]
    | false =>
      have heq : s.handleProposal author p =
          .ok (.sync { s with blockBuffer, updatingTarget := true },
            [.forwardRequestSync newRoot newHighQc]) := by
        rw [SyncState.handleProposal, hp]
        dsimp only
        rw [if_neg (by rw [hupdating]; decide)]
      obtain ⟨hcommitted, hepoch, b, hb, hlt⟩ :=
        handleProposal_forwards hinv.root_ne hp hvalid hfinal
      unfold System.handle
      rw [hmode]
      dsimp only
      rw [heq]
      refine ⟨⟨fun hb => (nomatch hb), ?_, ?_, ?_, fun node hnode => (nomatch hnode)⟩,
        fun node _ hnode => (nomatch hnode)⟩
      · simp [System.exec, hempty, forwarded?]
      · intro newRoot' newHighQc' queue hq
        simp only [System.exec, hempty, forwarded?, nil_append,
          filterMap_cons, filterMap_nil, List.cons.injEq,
          LoopbackEvent.requestSync.injEq] at hq
        obtain ⟨⟨rfl, rfl⟩, -⟩ := hq
        exact ⟨hcommitted, hepoch, _, rfl, b, hb.trans hroot.symm, hlt⟩
      · intro _ s' hs'
        obtain rfl := ConsensusMode.sync.inj hs'
        have hsame := hkeep true
        rw [← append_nil sys.targets] at hsame
        exact hsame

omit hstart in
/-- The first event of the queue is handled. -/
theorem System.forwarded_meets (h : SystemInv cfg committed valset start sys)
    (hadm : Input.forwarded.Admissible cfg committed sys) :
    System.StepMeets cfg backend committed valset start sys .forwarded
      (sys.next cfg backend .forwarded) := by
  obtain ⟨hbuilt, hne⟩ := hadm
  unfold System.next
  cases hq : sys.loopback with
  | nil => exact absurd hq hne
  | cons event queue =>
    have htail : ∀ e ∈ queue, e.isBlockSync = true := fun e he =>
      h.tail e (by rw [hq]; exact he)
    unfold System.handleForwarded
    cases event with
    | requestSync newRoot newHighQc =>
      obtain ⟨hcommitted, hepoch, s, hmode, b, hb, hlt⟩ := h.pending _ _ _ hq
      refine System.handle_meets hmode htail ?_
      exact ((h.syncing hbuilt s hmode).requestSync hinj hgenesis hb hlt hcommitted
        hepoch).maybeStartConsensus hinj hc hresults hdelay hdb
    | blockSync range fullBlocks =>
      cases hmode : sys.mode with
      | live node =>
        have := @System.exec_live_meets _ _ _ backend _ _ _ _ .forwarded h _ hmode queue
          fun e he => by rw [hq]; exact mem_cons_of_mem _ he
        rw [hmode] at this
        exact this
      | sync s =>
        obtain ⟨hroot, hmin⟩ := foldl_handleBlocksync_frame fullBlocks s.blockBuffer
        refine System.handle_meets rfl htail ?_
        exact ((h.syncing hbuilt s hmode).keeps_root hc
          (included_foldl_handleBlocksync hinj fullBlocks _) hroot hmin
          s.updatingTarget).maybeStartConsensus hinj hc hresults hdelay hdb

omit hinj hgenesis hc hresults hdelay hstart hdb in
/-- Blocks are put at the end of the queue. -/
theorem System.blocks_meets (h : SystemInv cfg committed valset start sys) {range : BlockRange T}
    {fullBlocks : List (ConsensusFullBlock env)}
    (hadm : (Input.blocks range fullBlocks).Admissible cfg committed sys) :
    System.StepMeets cfg backend committed valset start sys (.blocks range fullBlocks)
      (sys.next cfg backend (.blocks range fullBlocks)) := by
  obtain ⟨hbuilt, -, -⟩ := hadm
  refine ⟨⟨fun hb => ?_, ?_, ?_, fun _ => h.syncing hbuilt, h.live⟩, fun node hnot hnode => ?_⟩
  · rw [show sys.built = false from hb] at hbuilt
    cases hbuilt
  · intro e he
    cases hq : sys.loopback with
    | nil =>
      rw [hq] at he
      cases he
    | cons event queue =>
      rw [hq, cons_append, tail_cons, mem_append, mem_singleton] at he
      rcases he with he | rfl
      · exact h.tail e (by rw [hq]; exact he)
      · rfl
  · intro newRoot newHighQc queue hq
    cases hq' : sys.loopback with
    | nil =>
      rw [hq'] at hq
      cases hq
    | cons event queue' =>
      rw [hq', cons_append, List.cons.injEq] at hq
      obtain ⟨rfl, -⟩ := hq
      exact h.pending _ _ _ hq'
  · rw [show sys.mode = .live node from hnode] at hnot
    cases hnot

/-- Every admissible event is handled. -/
theorem System.next_meets (h : SystemInv cfg committed valset start sys)
    (hadm : input.Admissible cfg committed sys) :
    System.StepMeets cfg backend committed valset start sys input
      (sys.next cfg backend input) := by
  cases input with
  | build =>
    obtain rfl := h.unbuilt hadm
    exact System.build_meets hinj hgenesis hc hresults hdelay hstart hdb
  | proposal author p =>
    cases hmode : sys.mode with
    | live node =>
      have := @System.exec_live_meets _ _ _ backend _ _ _ _ (.proposal author p) h _ hmode
        sys.loopback fun _ he => he
      unfold System.next System.handle
      rw [hmode] at this ⊢
      exact this
    | sync s => exact System.proposal_meets hc h hmode hadm
  | forwarded => exact System.forwarded_meets hinj hgenesis hc hresults hdelay hdb h hadm
  | doneSync n =>
    obtain ⟨hbuilt, hempty, hn, hexec⟩ := hadm
    cases hmode : sys.mode with
    | live node =>
      rw [h.live node hmode] at hexec
      cases hexec
    | sync s =>
      refine System.handle_meets hmode (by simp [hempty]) ?_
      exact (h.syncing hbuilt s hmode).doneSync hinj hc hresults hdelay hdb hn
  | blocks range fullBlocks => exact System.blocks_meets h hadm

omit hdb in
theorem SyncRun.systemInv (h : SyncRun cfg committed valset start cmds sys) :
    SystemInv cfg committed valset start sys := by
  refine Reach.invariant (fun sys cmds sys' hinv hstep => ?_) ?_ h
  · obtain ⟨backend, input, hdb, hadm, hnext⟩ := hstep
    have := System.next_meets hinj hgenesis hc hresults hdelay hstart hdb hinv hadm
    rw [hnext] at this
    exact this.1
  · exact ⟨fun _ => rfl, by simp [System.new], by simp [System.new], fun hb => (nomatch hb),
      fun node hnode => (nomatch hnode)⟩

/-- In every run from a forkpoint whose epochs were locked early enough, an event is handled
without failure, up to those that are announced, and a node that goes live is handed the last
committed blocks. -/
theorem System.next_handover (h : SyncRun cfg committed valset start cmds sys)
    (hadm : input.Admissible cfg committed sys) :
    match sys.next cfg backend input with
    | .error panic => panic.Allowed cfg start
    | .ok (sys', cmds) => ∀ node, sys.mode.isLive = false → sys'.mode = .live node →
      ∃ blocks, Handover cfg backend input node.pendingBlockTree.root cmds blocks := by
  have hmeets := System.next_meets hinj hgenesis hc hresults hdelay hstart hdb
    (h.systemInv hinj hgenesis hc hresults hdelay hstart) hadm
  revert hmeets
  rcases sys.next cfg backend input with panic | ⟨sys', cmds⟩
  · exact fun he => he
  · exact fun hok => hok.2

end Runs

/-! ## Starting next to an epoch boundary -/

namespace Ideal

/-- A chain of blocks, each carrying its own number as execution input. -/
def finalizedHeader : ℕ → ConsensusBlockHeader types
  | 0 => { (tip 0 1 genesisQc 1 0 none).blockHeader with executionInputs := 1 }
  | n + 1 =>
    { (tip 0 (n + 2) (qc [0, 1, 2] (headerId (finalizedHeader n)) (n + 1) 1) (n + 2) 0
        none).blockHeader with executionInputs := n + 2 }

def finalizedBlock (n : ℕ) : ConsensusFullBlock soleLeader where
  header := finalizedHeader n
  body := 0
  body_matches := by cases n <;> rfl

def finalized (b : ConsensusFullBlock soleLeader) : Prop := ∃ n, b.header = finalizedHeader n

theorem finalized_chain : CommittedChain finalized := by
  refine ⟨fun {b b'} => ?_⟩
  rintro ⟨n, hb⟩ hid
  unfold getId getParentId at hid
  rw [hb] at hid
  cases n with
  | zero => cases hid
  | succ n =>
    have hb' : b'.header = finalizedHeader n := headerId_injective hid
    refine ⟨⟨n, hb'⟩, ?_⟩
    unfold getSeqNum
    rw [hb, hb']
    cases n <;> rfl

/-- Epochs of four blocks, and an execution delay of one block. -/
def syncConfig : SyncConfig soleLeader where
  executionDelay := 1
  statesyncToLiveThreshold := 10
  stakingActivation := 1
  epochManager := { epochLength := 4, epochStartDelay := 2, epochStarts := [(1, 0), (2, 6)] }
  executionResults inputs := [⟨inputs - 1⟩]
  validateBlock _ := true

theorem finalized_results : CarriesResults syncConfig finalized := by
  rintro b ⟨n, hb⟩ hle
  refine ⟨⟨n⟩, ?_, ?_⟩
  · rw [hb]
    cases n <;> rfl
  · unfold getSeqNum
    rw [hb]
    cases n <;> rfl

/-- One validator, whose stake is the number of the epoch. -/
def stakeByEpoch (epoch : ℕ) : List ValidatorData := [⟨0, epoch, 0⟩]

/-- A database that knows an epoch from the block on that locks it. -/
def valsetDb (executed : Bool) : SyncBackend types where
  getExecutionResult _ _ := executed
  readValsetAtBlock n epoch := if (epoch - 1) * 4 ≤ n + 1 then stakeByEpoch epoch else []

theorem valsetDb_holds (executed : Bool) :
    (valsetDb executed).HoldsValsets syncConfig stakeByEpoch := by
  intro epoch n hlocked
  unfold valsetDb
  dsimp only
  rw [if_pos (show (epoch - 1) * 4 ≤ n + 1 from hlocked)]
  simp [sameValData]

/-- A forkpoint with the validators of the first two epochs. -/
def forkpointAt (n : ℕ) : SyncStart types where
  root := headerId (finalizedHeader n)
  highCertificate := .qc (qc [0, 1, 2] (headerId (finalizedHeader n)) (n + 1) 1)
  lockedEpochValidators := [⟨1, stakeByEpoch 1⟩, ⟨2, stakeByEpoch 2⟩]

theorem forkpointAt_committed (n : ℕ) : @IsCommitted _ soleLeader finalized (forkpointAt n).root :=
  fun _ hb => ⟨n, headerId_injective hb⟩

def firstRange (n : ℕ) : BlockRange types where
  lastBlockId := headerId (finalizedHeader n)
  numBlocks := 2

/-- A node is built with a root and gets its two blocks. -/
def gotBlocks (executed : Bool) (n : ℕ) : Except SyncPanic (System soleLeader) := do
  let (sys, _) ← (System.new syncConfig (forkpointAt (n + 1))).next syncConfig (valsetDb executed)
    .build
  let (sys, _) ← sys.next syncConfig (valsetDb executed)
    (.blocks (firstRange (n + 1)) [finalizedBlock n, finalizedBlock (n + 1)])
  return sys

theorem firstRange_holds (n : ℕ) :
    (firstRange (n + 1)).Holds [finalizedBlock n, finalizedBlock (n + 1)] :=
  ⟨rfl, .cons rfl (.cons rfl (.nil _))⟩

theorem gotBlocks_run {executed : Bool} {n : ℕ} {sys : System soleLeader}
    (h : gotBlocks executed n = .ok sys) :
    ∃ cmds, SyncRun syncConfig finalized stakeByEpoch (forkpointAt (n + 1)) cmds sys := by
  obtain ⟨⟨sys₁, cmds₁⟩, hbuild, h⟩ := bind_eq_ok.mp h
  obtain ⟨⟨sys₂, cmds₂⟩, hblocks, h⟩ := bind_eq_ok.mp h
  cases h
  have hsys₁ : sys₁.built = true ∧ firstRange (n + 1) ∈ sys₁.requests := by
    have hsys : (System.new syncConfig (forkpointAt (n + 1))).next syncConfig (valsetDb executed)
        .build = .ok ((System.new syncConfig (forkpointAt (n + 1))).exec
          (System.new syncConfig (forkpointAt (n + 1))).mode
          [.selfRequest (firstRange (n + 1))], [.selfRequest (firstRange (n + 1))]) := rfl
    cases hbuild
    exact ⟨rfl, mem_singleton.mpr rfl⟩
  exact ⟨_, .snoc (.single ⟨_, .build, valsetDb_holds executed, rfl, hbuild⟩)
    ⟨_, .blocks _ _, valsetDb_holds executed, ⟨hsys₁.1, hsys₁.2, firstRange_holds n⟩, hblocks⟩⟩

/-- A node with root 5 before it handles its blocks. -/
def atFive : System soleLeader := (gotBlocks false 3).toOption.get (by decide +kernel)

/-- Its blocks are there, and statesync has been asked for block 4. -/
def askedForFour : System soleLeader × List (SyncCommand soleLeader) :=
  (atFive.next syncConfig (valsetDb false) .forwarded).toOption.get (by decide +kernel)

/-- Statesync has reported block 4. -/
def liveAtFive : System soleLeader × List (SyncCommand soleLeader) :=
  (askedForFour.1.next syncConfig (valsetDb false) (.doneSync 4)).toOption.get (by decide +kernel)

/-- A node with root 3, the last block of the first epoch, before it handles its blocks. -/
def atThree : System soleLeader := (gotBlocks true 1).toOption.get (by decide +kernel)

theorem forkpointAt_settled : (forkpointAt 4).Settled syncConfig finalized stakeByEpoch := by
  refine ⟨forkpointAt_committed 4, ?_, ?_⟩
  · decide
  intro locked hmem _
  refine ⟨fun hroot => (nomatch hroot), fun b hb => ?_⟩
  have hseq : b.getSeqNum = 5 := congrArg ConsensusBlockHeader.seqNum (headerId_injective hb)
  rw [hseq]
  revert locked
  unfold LockedBy
  decide

end Ideal

open MonadBft.Ideal

/-- A node whose forkpoint has block 5 as its root, well inside the second epoch, goes live when
statesync reports block 4. -/
theorem System.next_handover_settled :
    (forkpointAt 4).Settled syncConfig finalized stakeByEpoch ∧
    ∃ node blocks, liveAtFive.1.mode = .live node ∧
      Handover syncConfig (valsetDb false) (.doneSync 4) node.pendingBlockTree.root
        liveAtFive.2 blocks := by
  refine ⟨forkpointAt_settled, ?_⟩
  obtain ⟨cmds, hrun⟩ := @gotBlocks_run false 3 atFive (eq_ok_get (by decide +kernel))
  have hasked : SyncRun _ _ _ _ _ askedForFour.1 := .snoc hrun
    ⟨valsetDb false, .forwarded, valsetDb_holds false,
      ⟨by decide +kernel, fun hnil => absurd (congrArg List.length hnil) (by decide +kernel)⟩,
      eq_ok_get (by decide +kernel)⟩
  have hadm : (Input.doneSync 4).Admissible syncConfig finalized
      askedForFour.1 :=
    ⟨by decide +kernel, length_eq_zero_iff.mp (by decide +kernel), by decide +kernel,
      by decide +kernel⟩
  have hmeets := System.next_handover headerId_injective (fun _ h => Digest.noConfusion h)
    finalized_chain finalized_results (by decide) forkpointAt_settled
    (valsetDb_holds false) hasked hadm
  have hnext : askedForFour.1.next syncConfig (valsetDb false) (.doneSync 4) =
      .ok liveAtFive := eq_ok_get (by decide +kernel)
  cases hmode : liveAtFive.1.mode with
  | sync s =>
    have hlive : liveAtFive.1.mode.isLive = true := by decide +kernel
    rw [hmode] at hlive
    cases hlive
  | live node =>
    obtain ⟨blocks, hblocks⟩ := hmeets node (by decide +kernel) hmode
    exact ⟨node, blocks, rfl, hblocks⟩

/-- A forkpoint with the last block of an epoch as its root lists the validators of the next
epoch, which that block locks. A node restarted from it compares them with the state of an
earlier block, and stops. -/
theorem System.unexpected_locked_valset :
    IsCommitted finalized (forkpointAt 2).root ∧
    (∀ locked ∈ (forkpointAt 2).lockedEpochValidators,
      locked.validators = stakeByEpoch locked.epoch ∧
      LockedBy syncConfig locked.epoch (finalizedBlock 2).getSeqNum) ∧
    (valsetDb true).HoldsValsets syncConfig stakeByEpoch ∧
    ∃ cmds sys, SyncRun syncConfig finalized stakeByEpoch (forkpointAt 2)
        cmds sys ∧
      Input.forwarded.Admissible syncConfig finalized sys ∧
      ∃ panic, sys.next syncConfig (valsetDb true) .forwarded = .error panic ∧
        panic = .unexpectedLockedValset ∧ ¬ panic.Allowed syncConfig (forkpointAt 2) := by
  refine ⟨forkpointAt_committed 2, ?_, valsetDb_holds true, ?_⟩
  · unfold LockedBy
    decide
  obtain ⟨cmds, hrun⟩ := @gotBlocks_run true 1 atThree (eq_ok_get (by decide +kernel))
  refine ⟨cmds, atThree, hrun,
    ⟨by decide +kernel, fun hnil => absurd (congrArg List.length hnil) (by decide +kernel)⟩,
    .unexpectedLockedValset, ?_, rfl, ?_⟩
  · rfl
  · rintro (hdoc | ⟨heq, -⟩)
    · cases hdoc
    · cases heq

end MonadBft
