import MonadBft.Trace

/-!
# Handlers follow the steps

Each function of the state machine, run from a state with the invariant, proceeds by the
steps of `MonadBft.Trace` and trips none of the assertions that guard votes, proposals
and timeouts (`Follows (discipline ctx e)`). The lemmas are in the order of the calls:
first what leaves safety, pacemaker and the scheduled vote alone (`Untouched`), then
proposing, certificates, voting and the message handlers. `follows_handle` is the result
for every event.
-/

namespace MonadBft

open List Prog Pacemaker

variable {T : Types} {env : Env T}

/-- Safety, pacemaker, no-endorsements and scheduled vote are the same. -/
structure Node.Untouched (n n' : Node env) : Prop where
  safety : n'.safety = n.safety
  pacemaker : n'.pacemaker = n.pacemaker
  scheduledVote : n'.scheduledVote = n.scheduledVote
  noEndorsementState : n'.noEndorsementState = n.noEndorsementState

namespace Node.Untouched

variable {n n₁ n₂ : Node env}

theorem refl (n : Node env) : Untouched n n := ⟨rfl, rfl, rfl, rfl⟩

theorem trans (h : Untouched n n₁) (h' : Untouched n₁ n₂) : Untouched n n₂ :=
  ⟨h'.1.trans h.1, h'.2.trans h.2, h'.3.trans h.3, h'.4.trans h.4⟩

theorem getCurrentRound (h : Untouched n n₁) : n₁.getCurrentRound = n.getCurrentRound := by
  unfold Node.getCurrentRound
  rw [h.pacemaker]

theorem proposalPlan (h : Untouched n n₁) (round : ℕ) :
    n₁.proposalPlan round = n.proposalPlan round := by
  unfold Node.proposalPlan
  rw [h.pacemaker, h.noEndorsementState]

variable {e : Event env}

theorem quiet_of_headers (h : Untouched n n₁) (hem : n₁.epochManager = n.epochManager)
    (hheaders : ∀ h ∈ n₁.headers, h ∈ n.headers ∨ h ∈ e.headers) : Quiet e n n₁ :=
  ⟨by rw [h.safety]; exact ⟨rfl, rfl, rfl, rfl⟩, h.pacemaker, h.scheduledVote, hem,
    by rw [h.noEndorsementState]; exact id, hheaders⟩

theorem quiet (h : Untouched n n₁) (hem : n₁.epochManager = n.epochManager)
    (htree : n₁.pendingBlockTree = n.pendingBlockTree) : Quiet e n n₁ :=
  h.quiet_of_headers hem fun h hh => .inl (by rwa [Node.headers, htree] at hh)

end Node.Untouched

namespace Node

variable {ctx : Ctx env} {e : Event env} {n : Node env} {α : Type} {Q : α → Node env → Prop}
  {author : NodeId} {round : ℕ} {panic : Panic} {cmds : List (ConsensusCommand env)}
  {m : TimeoutMessage T}

/-! ## Rules -/

variable {n' : Node env} {epoch : ℕ} {body : T.BlockBody} {header : ConsensusBlockHeader T}
  {block : ConsensusFullBlock env} {tc : TimeoutCertificate T} {tip : ConsensusTip T}
  {qc : QuorumCertificate T} {p : ProposalMessage T} {x : M env α} {a : α} {v : Vote T}

theorem follows_step {acts : List (Act env)} (hx : x n = .ok (a, n', cmds))
    (hs : Trace ctx e n acts n') (hc : commandsOf acts = cmds) (hQ : Q a n') :
    Follows (discipline ctx e) x n Q :=
  .of_eq hx ⟨acts, hc, hs⟩ hQ

theorem follows_quiet (hx : x n = .ok (a, n', cmds)) (hq : Quiet e n n')
    (hc : ∀ c ∈ cmds, c.IsQuiet ∧ c.Planned n) (hQ : Q a n') : Follows (discipline ctx e) x n Q :=
  follows_step hx (.single (.quiet hq hc)) (commandsOf_map_cmd cmds) hQ

/-- A quiet command is sent, and nothing else happens. -/
theorem follows_command {c : ConsensusCommand env} (hx : x n = .ok (a, n, [c]))
    (hc : c.IsQuiet ∧ c.Planned n) (hQ : Q a n) :
    Follows (discipline ctx e) x n Q :=
  follows_quiet hx ((Untouched.refl n).quiet rfl rfl) (forall_mem_singleton.mpr hc) hQ

/-- The steps are taken, and no assertion trips. -/
abbrev Proceeds (ctx : Ctx env) (e : Event env) (x : M env α) (n : Node env) : Prop :=
  Follows (discipline ctx e) x n fun _ _ => True

/-- The steps leave safety, pacemaker and the scheduled vote alone. -/
abbrev Spares (ctx : Ctx env) (e : Event env) (x : M env α) (n : Node env) : Prop :=
  Follows (discipline ctx e) x n fun _ n' => Untouched n n'

theorem follows_liftTree_bind {β : Type} {y : Except TreePanic β} {f : β → M env α}
    (hok : ∀ b, y = .ok b → Follows (discipline ctx e) (f b) n Q) :
    Follows (discipline ctx e) (liftTree y >>= f) n Q := by
  refine .lift_bind (fun b hb => hok b ?_) fun panic hp _ => ?_
  · rcases y with _ | b'
    · cases hb
    · cases hb
      rfl
  · rcases y with p | _
    · cases hp
      rfl
    · cases hp

theorem Follows.round_le (h : Follows (discipline ctx e) x n Q) :
    Follows (discipline ctx e) x n fun a n' => Q a n' ∧ n.getCurrentRound ≤ n'.getCurrentRound :=
  fun hI => .mono (h hI)
    (fun _ _ _ hr => ⟨hr.1, hr.2, hr.1.elim fun _ ht => Trace.round_le ht.2⟩) fun _ hp => hp

/-! ## Lookups -/

theorem validatorsAt_ok {round : ℕ} {v : ValidatorSet × ValidatorMapping}
    (h : n.validatorsAt ctx round = .ok v) :
    ∃ epoch, n.epochManager.getEpoch round = some epoch ∧ ctx.valEpochMap epoch = some v := by
  unfold validatorsAt epochOf validatorsOf at h
  split at h
  · cases h
  next epoch hepoch =>
    split at hepoch
    next ep hget =>
      obtain rfl := Except.ok.inj hepoch
      split at h
      next v' hv =>
        cases h
        exact ⟨ep, hget, hv⟩
      · cases h
    · cases hepoch

theorem epochOf_error (h : n.epochOf round = .error panic) : panic.isAssertion = false := by
  unfold epochOf at h
  split at h
  · cases h
  · cases h
    rfl

theorem validatorsOf_error (h : validatorsOf ctx epoch = .error panic) :
    panic.isAssertion = false := by
  unfold validatorsOf at h
  split at h
  · cases h
  · cases h
    rfl

theorem validatorsAt_error (h : n.validatorsAt ctx round = .error panic) :
    panic.isAssertion = false := by
  unfold validatorsAt at h
  split at h
  next hepoch =>
    cases h
    exact epochOf_error hepoch
  · exact validatorsOf_error h

theorem leaderAt_error (h : n.leaderAt ctx round = .error panic) : panic.isAssertion = false := by
  unfold leaderAt at h
  rcases hv : n.validatorsAt ctx round with p | v
  · rw [hv] at h
    cases h
    exact validatorsAt_error hv
  · rw [hv] at h
    cases h

theorem scheduleEpochStart_error {em : EpochManager} {blockNum blockRound : ℕ}
    (h : em.scheduleEpochStart blockNum blockRound = .error panic) : panic.isAssertion = false := by
  unfold EpochManager.scheduleEpochStart EpochManager.insertEpochStart at h
  split at h
  · split at h
    · cases h
    · split at h
      · cases h
      · cases h
        rfl
  · cases h

theorem validateBlock_error (h : n.validateBlock ctx header body = .error panic) :
    panic.isAssertion = false := by
  unfold validateBlock at h
  split at h
  · cases h
  rcases hl : n.leaderAt ctx header.blockRound with p | leader
  · rw [hl] at h
    cases h
    exact leaderAt_error hl
  rw [hl] at h
  change (if header.author ≠ leader then _ else _) = _ at h
  split at h
  · cases h
  rcases hk : authorKey ctx header with p | key
  · rw [hk] at h
    cases h
    unfold authorKey at hk
    split at hk
    next hv =>
      cases hk
      exact validatorsOf_error hv
    · split at hk
      · cases hk
        rfl
      · cases hk
  · rw [hk] at h
    cases h

/-- A validated block is in the tree, or has the given header. -/
theorem validateBlock_ok (h : n.validateBlock ctx header body = .ok (some block)) :
    block.header ∈ n.headers ∨ block.header = header := by
  unfold validateBlock at h
  split at h
  next validated hget =>
    have hsome := Except.ok.inj h
    split at hsome
    · cases hsome
    · cases hsome
      exact .inl (BlockTree.header_mem_of_getBlock hget)
  · obtain ⟨leader, -, h⟩ := bind_eq_ok.mp h
    split at h
    · cases h
    obtain ⟨key, -, h⟩ := bind_eq_ok.mp h
    have hsome := Except.ok.inj h
    split at hsome
    · unfold ConsensusFullBlock.new? at hsome
      split at hsome
      · cases hsome
        exact .inr rfl
      · cases hsome
    · cases hsome

/-! ## Block sync requests, commits and the proposed head -/

theorem follows_requestSync (range : BlockRange T) (cancelRound : ℕ) :
    Spares ctx e (requestSync range cancelRound) n := by
  have hu : Untouched n { n with
      blockSyncRequests := n.blockSyncRequests ++ [(range.lastBlockId, { range, cancelRound })] } :=
    ⟨rfl, rfl, rfl, rfl⟩
  exact follows_quiet rfl (hu.quiet rfl rfl)
    (forall_mem_singleton.mpr ⟨⟨rfl, rfl, rfl⟩, trivial⟩) hu

theorem follows_requestBlocksIfMissingAncestor : Spares ctx e requestBlocksIfMissingAncestor n := by
  refine .get_bind (follows_liftTree_bind fun range _ => ?_)
  cases range with
  | none => exact .pure (.refl n)
  | some range => exact .guard (.refl n) fun _ => follows_requestSync _ _

theorem follows_requestTipIfMissing : Spares ctx e requestTipIfMissing n := by
  refine .get_bind ?_
  split
  · exact .pure (.refl n)
  · exact .guard (.refl n) fun _ => .guard (.refl n) fun _ => follows_requestSync _ _

theorem follows_cancelObsoleteRequests : Spares ctx e cancelObsoleteRequests n := by
  refine .get_bind ?_
  refine follows_quiet rfl (Untouched.quiet ⟨rfl, rfl, rfl, rfl⟩ rfl rfl) ?_
    ⟨rfl, rfl, rfl, rfl⟩
  intro c hc
  obtain ⟨r, -, rfl⟩ := mem_map.mp hc
  exact ⟨⟨rfl, rfl, rfl⟩, trivial⟩

theorem sat_commitBlock (block : ConsensusFullBlock env) :
    Sat (commitBlock block) n
      (fun _ n' cmds => cmds = [.commitBlocks (.finalized block)] ∧ ∃ epochManager,
        n.epochManager.scheduleEpochStart block.getSeqNum block.getBlockRound = .ok epochManager ∧
        n' = { n with epochManager })
      fun panic => panic.isAssertion = false := by
  refine .get_bind (.lift_bind (fun epochManager hem => ?_) fun panic hp => ?_)
  · exact .of_eq rfl ⟨rfl, epochManager, hem, rfl⟩
  · exact scheduleEpochStart_error hp

/-- Blocks of a tree that has been replaced are committed. The steps can be taken with the
old tree. -/
theorem sat_commitBlocks (ctx : Ctx env) (e : Event env) {tree : BlockTree env} :
    ∀ (blocks : List (ConsensusFullBlock env)) {n : Node env},
      (∀ b ∈ blocks, b.header ∈ tree.headers) →
      Sat (forEach commitBlock blocks) n
        (fun _ n' cmds => ∃ epochManager acts, n' = { n with epochManager } ∧
          commandsOf acts = cmds ∧ Trace ctx e { n with pendingBlockTree := tree } acts
            { n with pendingBlockTree := tree, epochManager })
        fun panic => panic.isAssertion = false
  | [], n, _ => .of_eq rfl ⟨n.epochManager, [], rfl, rfl, .nil _⟩
  | block :: blocks, n, hblocks => by
    refine .bind (sat_commitBlock block) ?_
    rintro _ _ _ ⟨rfl, em, hem, rfl⟩
    have hstep : Step ctx e { n with pendingBlockTree := tree }
        [.cmd (.commitBlocks (.finalized block))]
        { n with pendingBlockTree := tree, epochManager := em } :=
      .commit (hblocks block mem_cons_self) hem
    refine .mono (sat_commitBlocks ctx e blocks fun b hb => hblocks b (mem_cons_of_mem _ hb)) ?_
      fun _ h => h
    rintro _ _ _ ⟨em', acts, rfl, rfl, htrace⟩
    exact ⟨em', _ ++ acts, rfl, by rw [commandsOf_append, commandsOf_cmd],
      (Reach.single hstep).append htrace⟩

theorem follows_commitBlocksTo (id : T.BlockId) : Spares ctx e (commitBlocksTo id) n := by
  refine .get_bind (follows_liftTree_bind ?_)
  rintro ⟨blocks, tree⟩ hprune
  obtain ⟨hcommit, hkept⟩ := BlockTree.prune_ok hprune
  intro _
  refine .modify_bind (.mono (sat_commitBlocks ctx e blocks hcommit) ?_ fun _ h => h)
  rintro _ _ _ ⟨em, acts, rfl, rfl, htrace⟩
  -- the blocks are committed first, and then the tree is replaced
  have hu : Untouched { n with epochManager := em }
      { n with pendingBlockTree := tree, epochManager := em } := ⟨rfl, rfl, rfl, rfl⟩
  have hreplace : Step ctx e { n with epochManager := em }
      (([] : List (ConsensusCommand env)).map .cmd)
      { n with pendingBlockTree := tree, epochManager := em } :=
    .quiet (hu.quiet_of_headers rfl fun h hh => .inl (hkept h hh)) (by simp)
  exact ⟨⟨acts ++ [], by rw [append_nil], htrace.append (.single hreplace)⟩, ⟨rfl, rfl, rfl, rfl⟩⟩

theorem follows_tryCommit (qc : QuorumCertificate T) : Spares ctx e (tryCommit qc) n := by
  refine .get_bind ?_
  split
  · exact .pure (.refl n)
  refine follows_liftTree_bind fun committable _ => ?_
  cases committable with
  | none => exact .pure (.refl n)
  | some id =>
    dsimp only
    split
    · exact follows_commitBlocksTo id
    · exact .pure (.refl n)

theorem follows_updateProposedHead : Spares ctx e updateProposedHead n := by
  refine .get_bind (.guard (.refl n) fun _ => ?_)
  split
  · exact .pure (.refl n)
  · exact follows_quiet rfl (Untouched.quiet ⟨rfl, rfl, rfl, rfl⟩ rfl rfl)
      (forall_mem_singleton.mpr ⟨⟨rfl, rfl, rfl⟩, trivial⟩) ⟨rfl, rfl, rfl, rfl⟩

theorem follows_tryUpdateCoherency (id : T.BlockId) :
    Spares ctx e (tryUpdateCoherency ctx id) n := by
  refine .get_bind (follows_liftTree_bind ?_)
  rintro ⟨blocks, tree⟩ hupdate
  have hu : Untouched n { n with pendingBlockTree := tree } := ⟨rfl, rfl, rfl, rfl⟩
  have hheaders : ∀ h ∈ tree.headers, h ∈ n.headers ∨ h ∈ e.headers := fun h hh =>
    .inl (BlockTree.mem_headers_tryUpdateCoherency hupdate hh)
  refine .bind (P := fun _ n' => Untouched n n')
    (follows_quiet rfl (hu.quiet_of_headers rfl hheaders) (by simp) hu) fun _ n₁ _ _ h₁ => ?_
  refine .bind (P := fun _ n' => Untouched n₁ n') ?_ fun _ n₂ _ _ h₂ => ?_
  · refine follows_quiet rfl ((Untouched.refl n₁).quiet rfl rfl) ?_ (.refl n₁)
    intro c hc
    obtain ⟨block, -, rfl⟩ := mem_map.mp hc
    exact ⟨⟨rfl, rfl, rfl⟩, trivial⟩
  refine .bind follows_updateProposedHead fun _ n₃ _ _ h₃ => ?_
  have h₀ : Untouched n n₃ := h₁.trans (h₂.trans h₃)
  refine .get_bind (follows_liftTree_bind fun qc _ => ?_)
  cases qc with
  | none => exact .pure h₀
  | some qc => exact (follows_tryCommit qc).mono fun _ _ h => h₀.trans h

theorem follows_maybeStatesync : Spares ctx e maybeStatesync n := by
  refine .get_bind ?_
  split
  · exact .pure (.refl n)
  · split
    · exact .pure (.refl n)
    · exact .fail rfl

theorem follows_commitVoted (qc : QuorumCertificate T) : Spares ctx e (commitVoted qc) n := by
  refine .get_bind ?_
  split
  · exact .pure (.refl n)
  · exact follows_command rfl ⟨⟨rfl, rfl, rfl⟩, trivial⟩ (.refl n)

/-! ## Proposing -/

/-- Safety allows what is asked of it, and no vote changes. -/
theorem follows_setSafety_bind {y : Except Panic (Safety T)} {safety : Safety T}
    (hy : y = .ok safety) (hsame : n.safety.SameVotes safety)
    (h : Follows (discipline ctx e) x { n with safety } Q) :
    Follows (discipline ctx e) (lift y >>= fun safety => setSafety safety >>= fun _ => x) n Q := by
  refine .lift_ok_bind hy (.bind (P := fun _ n' => n' = { n with safety }) ?_ ?_)
  · exact follows_quiet rfl ⟨hsame, rfl, rfl, rfl, id, fun _ hh => .inl hh⟩ (by simp) rfl
  · rintro _ _ _ _ rfl
    exact h

theorem follows_requestRecovery (round : ℕ) (tc : TimeoutCertificate T) :
    Follows (discipline ctx e) (requestRecovery round tc) n
      fun _ n' => n'.pacemaker = n.pacemaker := by
  refine .get_bind (.guard rfl fun hsafe => ?_)
  refine follows_setSafety_bind (if_pos (by simpa using hsafe)) ⟨rfl, rfl, rfl, rfl⟩ ?_
  exact follows_command rfl ⟨⟨rfl, rfl, rfl⟩, trivial⟩ rfl

theorem follows_repropose (hround : round = n.getCurrentRound)
    (hplan : n.proposalPlan round = .repropose tip tc)
    (hsafe : n.safety.isSafeToPropose round = true) :
    Follows (discipline ctx e) (repropose ctx round tip tc) n
      fun _ n' => n'.pacemaker = n.pacemaker := by
  refine .bind (follows_tryUpdateCoherency _) fun _ n₁ _ _ h₁ => .get_bind ?_
  split
  · exact (follows_requestRecovery round tc).mono fun _ _ h => h.trans h₁.pacemaker
  refine follows_setSafety_bind (if_pos (h₁.safety ▸ hsafe)) ⟨rfl, rfl, rfl, rfl⟩ ?_
  split
  · exact .fail rfl
  next block hblock =>
    have hplan₁ : n₁.proposalPlan n₁.getCurrentRound = .repropose tip tc := by
      rw [h₁.getCurrentRound, ← hround, h₁.proposalPlan, hplan]
    exact follows_command rfl ⟨⟨rfl, rfl, rfl⟩, tc, block, hplan₁, rfl, rfl,
      BlockTree.getId_of_getBlock hblock, rfl⟩ h₁.pacemaker

theorem follows_createProposal {fresh : Option (FreshProposalCertificate T)}
    {tc : Option (TimeoutCertificate T)} (hround : round = n.getCurrentRound)
    (hplan : n.proposalPlan round = .fresh qc fresh tc)
    (hsafe : n.safety.isSafeToPropose round = true) :
    Follows (discipline ctx e) (createProposal ctx epoch round qc fresh tc) n
      fun _ n' => n'.pacemaker = n.pacemaker := by
  refine .bind (follows_tryUpdateCoherency _) fun _ n₁ _ _ h₁ => .get_bind ?_
  refine .guard h₁.pacemaker fun _ => ?_
  split
  · exact .fail rfl
  refine .guard h₁.pacemaker fun _ => ?_
  refine follows_setSafety_bind (if_pos (h₁.safety ▸ hsafe)) ⟨rfl, rfl, rfl, rfl⟩ ?_
  have hcur : n₁.getCurrentRound = round := h₁.getCurrentRound.trans hround.symm
  have hplan₁ : n₁.proposalPlan n₁.getCurrentRound = .fresh qc fresh tc := by
    rw [hcur, h₁.proposalPlan, hplan]
  exact follows_command rfl ⟨⟨rfl, rfl, rfl⟩, hplan₁, hcur.symm⟩ h₁.pacemaker

theorem follows_tryPropose :
    Follows (discipline ctx e) (tryPropose ctx) n fun _ n' => n'.pacemaker = n.pacemaker := by
  refine .get_bind ?_
  refine .lift_bind (fun epoch _ => ?_) fun panic hp _ => epochOf_error hp
  refine .lift_bind ?_ fun panic hp _ => validatorsOf_error hp
  rintro ⟨validators, mapping⟩ -
  refine .guard rfl fun _ => ?_
  refine .bind follows_requestTipIfMissing fun _ n₁ _ _ h₁ => .get_bind ?_
  refine .guard h₁.pacemaker fun hsafe => ?_
  have hsafe : n₁.safety.isSafeToPropose n.getCurrentRound = true := by simpa using hsafe
  unfold propose
  split
  next hplan =>
    exact (follows_repropose h₁.getCurrentRound.symm hplan hsafe).mono
      fun _ _ h => h.trans h₁.pacemaker
  next hplan =>
    exact (follows_createProposal h₁.getCurrentRound.symm hplan hsafe).mono
      fun _ _ h => h.trans h₁.pacemaker

/-! ## Certificates -/

theorem follows_processCertificate {cert : RoundCertificate T}
    (ho : Origin ctx e n.pacemaker cert) :
    Follows (discipline ctx e) (processCertificate ctx cert) n
      fun _ n' => cert.round < n'.getCurrentRound := by
  refine .get_bind (.lift_bind (fun r hr => ?_) fun panic hp _ => ?_)
  · refine follows_step rfl (.single (.certificate ho hr)) (commandsOf_map_cmd _) ?_
    obtain ⟨p, s, cmds⟩ := r
    rcases processCertificate_ok hr with ⟨hle, rfl, -⟩ | ⟨hlt, epoch, -, rfl, -⟩
    · exact Nat.lt_succ_of_le hle
    · exact Nat.lt_succ_self _
  · rw [processCertificate_error hp]
    rfl

theorem follows_processQc (ho : ∀ p, Origin ctx e p (.qc qc)) :
    Follows (discipline ctx e) (processQc ctx qc) n
      fun _ n' => qc.getRound < n'.getCurrentRound := by
  refine .get_bind ?_
  split
  next hlt => exact .pure hlt
  refine .bind (follows_commitVoted qc) fun _ n₁ _ _ _ => ?_
  refine .bind (follows_tryCommit qc) fun _ n₂ _ _ _ => ?_
  refine .bind follows_cancelObsoleteRequests fun _ n₃ _ _ _ => ?_
  refine .bind follows_maybeStatesync fun _ n₄ _ _ _ => ?_
  refine .bind (follows_processCertificate (ho _)) fun _ n₅ _ _ h₅ => ?_
  refine .bind follows_updateProposedHead fun _ n₆ _ _ h₆ => ?_
  refine .bind follows_requestBlocksIfMissingAncestor fun _ n₇ _ _ h₇ => ?_
  have h₅ : qc.getRound < n₇.getCurrentRound := by
    rw [Node.getCurrentRound, h₇.pacemaker, h₆.pacemaker]
    exact h₅
  refine .bind (P := fun _ n' => qc.getRound < n'.getCurrentRound) ?_
    fun _ n₈ _ _ h₈ => (Follows.round_le follows_tryPropose).mono
      fun _ _ hle => h₈.trans_le hle.2
  exact follows_quiet rfl
    ⟨⟨rfl, rfl, rfl, rfl⟩, rfl, rfl, rfl, fun h => h.startNewRound _, fun _ hh => .inl hh⟩
    (by simp) h₅

theorem follows_processTc (ho : ∀ p, Origin ctx e p (.tc tc)) :
    Follows (discipline ctx e) (processTc ctx tc) n
      fun _ n' => tc.round < n'.getCurrentRound := by
  refine .get_bind ?_
  split
  next hlt => exact .pure hlt
  · exact .bind (follows_processCertificate (ho _)) fun _ n₁ _ _ h₁ =>
      (Follows.round_le follows_tryPropose).mono fun _ _ hle => h₁.trans_le hle.2

/-! ## Voting -/

/-- A command that sends the vote `v`, or nothing of interest. -/
def SendsOnly (ctx : Ctx env) (v : Vote T) (c : ConsensusCommand env) : Prop :=
  (c.IsQuiet ∧ ∀ n, c.Planned n) ∨ ∃ target,
    c = .publish target (.vote { vote := v, sig := env.sign ctx.nodeid (.vote v) })

theorem sendsOnly_in (h : ∀ c ∈ cmds, SendsOnly ctx v c) :
    ∀ c ∈ cmds, c.IsQuiet ∧ c.Planned n ∨ ∃ target,
      c = .publish target (.vote { vote := v, sig := env.sign ctx.nodeid (.vote v) }) := by
  intro c hc
  exact (h c hc).imp_left fun hquiet => ⟨hquiet.1, hquiet.2 n⟩

theorem sat_sendVoteAndResetTimer (v : Vote T) :
    Sat (sendVoteAndResetTimer ctx v) n
      (fun _ n' cmds => n' = { n with scheduledVote := none } ∧ ∀ c ∈ cmds, SendsOnly ctx v c)
      fun panic => panic.isAssertion = false := by
  refine .get_bind ?_
  refine .lift_bind (fun nextLeader _ => ?_) fun panic hp => leaderAt_error hp
  refine .lift_bind (fun currentLeader _ => ?_) fun panic hp => leaderAt_error hp
  refine .of_eq rfl ⟨rfl, fun c hc => ?_⟩
  simp only [append_nil, cons_append, mem_cons, mem_append, not_mem_nil, or_false] at hc
  rcases hc with rfl | hc | rfl
  · exact .inr ⟨_, rfl⟩
  · split at hc
    · exact .inr ⟨_, mem_singleton.mp hc⟩
    · cases hc
  · exact .inl ⟨⟨rfl, rfl, rfl⟩, fun _ => trivial⟩

/-- A vote that was just cast is kept for the timer or sent. -/
def Dispatched (ctx : Ctx env) (v : Vote T) (n n' : Node env)
    (cmds : List (ConsensusCommand env)) : Prop :=
  (n' = { n with scheduledVote := some (.voteReady v) } ∧ cmds = []) ∨
    (n' = { n with scheduledVote := none } ∧ ∀ c ∈ cmds, SendsOnly ctx v c)

theorem sat_dispatchVote {parentBlockRound : ℕ} {sched : Option (OutgoingVoteStatus T)}
    (hlt : ∀ v', sched = some (.voteReady v') → v'.round < v.round) :
    Sat (dispatchVote ctx parentBlockRound v sched) n (fun _ => Dispatched ctx v n)
      fun panic => panic.isAssertion = false := by
  have hsend : Sat (sendVoteAndResetTimer ctx v) n (fun _ => Dispatched ctx v n)
      fun panic => panic.isAssertion = false :=
    (sat_sendVoteAndResetTimer v).mono (fun _ _ _ h => .inr h) fun _ h => h
  have hsched : Sat (sendOrSchedule ctx parentBlockRound v) n (fun _ => Dispatched ctx v n)
      fun panic => panic.isAssertion = false := by
    unfold sendOrSchedule
    split
    · exact hsend
    · exact .of_eq rfl (.inl ⟨rfl, rfl⟩)
  unfold dispatchVote
  split
  · exact hsend
  next v' =>
    split
    next hle => exact absurd (hlt v' rfl) (not_lt.mpr hle)
    · exact hsched
  · exact hsched

theorem follows_tryVote (hp : e = .message author (.proposal p))
    (hround : p.proposalRound = n.getCurrentRound) :
    Proceeds ctx e (tryVote ctx p.lastRoundTc p.tip) n := by
  refine .get_bind ?_
  dsimp only
  split
  · refine .guard trivial fun _ => .guard trivial fun _ => .guard trivial fun hsafe => ?_
    have hvote : n.safety.vote n.getCurrentRound (lastRoundTcTip env p.lastRoundTc) p.tip = .ok _ :=
      if_pos (by simpa using hsafe)
    refine .lift_ok_bind hvote ?_
    -- casting the vote and keeping or sending it are two steps
    intro hn
    have hlt := (Safety.isSafeToVote_eq_true.mp (Safety.vote_eq_ok.mp hvote).1).1
    have hcast : Step ctx e n _ _ := .vote hp hround hvote
    refine .modify_bind (.mono (sat_dispatchVote fun v' hv' =>
      (hn.scheduled v' hv').trans_lt hlt) ?_ fun _ h => h)
    rintro _ n' cmds (⟨rfl, rfl⟩ | ⟨rfl, hcmds⟩)
    · exact ⟨⟨_, rfl, .single hcast⟩, trivial⟩
    · refine ⟨⟨[.voted p] ++ cmds.map .cmd, ?_, (Reach.single hcast).append
        (.single (.send rfl (sendsOnly_in hcmds)))⟩, trivial⟩
      rw [commandsOf_append, commandsOf_map_cmd]
      rfl
  · exact .pure trivial

/-! ## Adding blocks -/

theorem follows_tryAddAndCommitBlocktree
    {vote : Option (ℕ × Option (TimeoutCertificate T) × ConsensusTip T)}
    (hblock : block.header ∈ n.headers ∨ block.header ∈ e.headers)
    (hvote : ∀ round tc tip, vote = some (round, tc, tip) → ∃ author p,
      e = .message author (.proposal p) ∧ round = p.proposalRound ∧ tc = p.lastRoundTc ∧
        tip = p.tip) : Proceeds ctx e (tryAddAndCommitBlocktree ctx block vote) n := by
  refine .get_bind (follows_liftTree_bind fun tree hadd => ?_)
  have hheaders : ∀ h ∈ tree.headers, h ∈ n.headers ∨ h ∈ e.headers := by
    intro h hh
    rcases BlockTree.mem_headers_add hadd hh with hold | rfl
    · exact .inl hold
    · exact hblock
  have hu : Untouched n { n with pendingBlockTree := tree } := ⟨rfl, rfl, rfl, rfl⟩
  refine .bind (P := fun _ _ => True)
    (follows_quiet rfl (hu.quiet_of_headers rfl hheaders) (by simp) trivial)
    fun _ n₁ _ _ _ => ?_
  refine .bind (follows_tryUpdateCoherency _) fun _ n₂ _ _ _ => ?_
  refine .bind (P := fun _ _ => True) ?_ fun _ n₃ _ _ _ => ?_
  · rcases vote with _ | ⟨round, tc, tip⟩
    · exact .pure trivial
    obtain ⟨author, p, hp, rfl, rfl, rfl⟩ := hvote round tc tip rfl
    refine .get_bind (.guard trivial fun hround => ?_)
    split
    · exact .fail rfl
    · exact follows_tryVote hp (not_not.mp hround)
  refine .bind follows_tryPropose fun _ n₄ _ _ _ => ?_
  refine .bind follows_maybeStatesync fun _ n₅ _ _ _ => ?_
  exact follows_requestBlocksIfMissingAncestor.mono fun _ _ _ => trivial

/-! ## Messages -/

theorem follows_acceptProposal (hp : e = .message author (.proposal p)) :
    Proceeds ctx e (acceptProposal ctx p) n := by
  refine .get_bind (.guard trivial fun hnew => ?_)
  refine follows_setSafety_bind (if_pos (by simpa using hnew)) ⟨rfl, rfl, rfl, rfl⟩ ?_
  refine .lift_bind (fun block hvalidate => ?_) fun panic herr _ => validateBlock_error herr
  cases block with
  | none => exact .pure trivial
  | some block =>
    have hblock := (validateBlock_ok hvalidate).imp_right fun h =>
      show block.header ∈ e.headers by simp [hp, Event.headers, h]
    refine follows_tryAddAndCommitBlocktree hblock fun round tc tip h => ?_
    obtain ⟨rfl, rfl, rfl⟩ : p.proposalRound = round ∧ p.lastRoundTc = tc ∧ p.tip = tip := by
      simpa using h
    exact ⟨author, p, hp, rfl, rfl, rfl⟩

theorem follows_handleProposalMessage (hp : e = .message author (.proposal p)) :
    Proceeds ctx e (handleProposalMessage ctx author p) n := by
  have hcarried : ∀ cert ∈ e.certificates, ∀ pm, Origin ctx e pm cert := fun _ hc _ => .carried hc
  subst hp
  refine .get_bind (.guard trivial fun _ => ?_)
  refine .lift_bind ?_ fun panic herr _ => validatorsAt_error herr
  rintro ⟨validators, mapping⟩ -
  refine .bind (follows_processQc (hcarried _ (by simp [Event.certificates]))) fun _ n₁ _ _ _ => ?_
  refine .bind (P := fun _ _ => True) ?_ fun _ n₂ _ _ _ => .get_bind ?_
  · rcases htc : p.lastRoundTc with _ | tc
    · exact .pure trivial
    · exact (follows_processTc (hcarried _ (by simp [Event.certificates, htc]))).mono
        fun _ _ _ => trivial
  · exact .guard trivial fun _ => follows_acceptProposal rfl

theorem follows_handleVoteMessage (author : NodeId) {m : VoteMessage T}
    (he : e.collected? = some m.vote.round) :
    Proceeds ctx e (handleVoteMessage ctx author m) n := by
  refine .get_bind (.guard trivial fun _ => .guard trivial fun _ => ?_)
  refine .lift_bind ?_ fun panic herr _ => validatorsAt_error herr
  rintro ⟨validators, mapping⟩ -
  refine .lift_bind ?_ fun panic herr _ => VoteState.processVote_error herr
  rintro ⟨maybeQc, voteState⟩ hprocess
  refine .bind (P := fun _ _ => True)
    (follows_quiet rfl (Untouched.quiet ⟨rfl, rfl, rfl, rfl⟩ rfl rfl) (by simp) trivial)
    fun _ n₁ _ _ _ => ?_
  cases maybeQc with
  | none => exact .pure trivial
  | some qc =>
    have hround : e.collected? = some qc.getRound := by
      rw [he, QuorumCertificate.getRound, VoteState.info_of_processVote hprocess]
    refine .bind (follows_processQc fun _ => .votes hround) fun _ n₂ _ _ _ => ?_
    refine .bind follows_tryPropose fun _ n₃ _ _ _ => .get_bind ?_
    split
    · exact follows_command rfl ⟨⟨rfl, rfl, rfl⟩, trivial⟩ trivial
    · exact .pure trivial

theorem follows_handleTimeoutExpiry (round : ℕ) :
    Proceeds ctx e (handleTimeoutExpiry ctx round) n := by
  refine .get_bind (.guard trivial fun _ => .lift_bind (fun r hr => ?_) fun panic herr hn => ?_)
  · exact follows_step rfl (.single (.timeout hr)) (commandsOf_map_cmd _) trivial
  · exact absurd (processLocalTimeout_error herr) (not_lt.mpr hn.vote_le)

theorem follows_handleTimeoutVote (author : NodeId) {tminfo : TimeoutInfo}
    (high : HighExtendVote T) (he : e.collected? = some tminfo.round) :
    Proceeds ctx e (handleTimeoutVote ctx author tminfo high) n := by
  unfold handleTimeoutVote
  split
  · exact follows_handleVoteMessage _ he
  · exact .pure trivial
  · exact .pure trivial

theorem follows_broadcastAdvanceRoundMessage (cert : RoundCertificate T) :
    Proceeds ctx e (broadcastAdvanceRoundMessage cert) n := by
  refine .get_bind ?_
  split
  · exact .pure trivial
  · exact follows_command rfl ⟨⟨rfl, rfl, rfl⟩, trivial⟩ trivial

/-- The node moves past the certificate of a timeout. -/
theorem follows_handleLastRoundCertificate {last : Option (RoundCertificate T)}
    (ho : ∀ cert, last = some cert → ∀ p, Origin ctx e p cert) :
    Follows (discipline ctx e) (handleLastRoundCertificate ctx last) n
      fun _ n' => ∀ cert, last = some cert → cert.round < n'.getCurrentRound := by
  rcases last with _ | (qc | tc)
  · exact .pure (by simp)
  · refine (follows_processQc (ho _ rfl)).mono ?_
    rintro _ n' h cert ⟨⟩
    exact h
  · have htc : ∀ {n : Node env}, Follows (discipline ctx e) (processTc ctx tc) n fun _ n' =>
        ∀ cert, some (RoundCertificate.tc tc) = some cert → cert.round < n'.getCurrentRound := by
      intro n
      refine (follows_processTc (ho _ rfl)).mono ?_
      rintro _ n' h cert ⟨⟩
      exact h
    refine .get_bind ?_
    split
    · exact .bind (follows_handleTimeoutExpiry _) fun _ n₁ _ _ _ => htc
    split
    · exact .bind (follows_broadcastAdvanceRoundMessage _) fun _ n₁ _ _ _ => htc
    · refine .pure ?_
      rintro cert ⟨⟩
      change tc.round < n.getCurrentRound
      omega

/-- Joining a timeout is a step, or nothing. -/
theorem trace_joinTimeout {validators : ValidatorSet}
    {r : Pacemaker T × Safety T × List (PacemakerCommand T)}
    (h : n.pacemaker.joinTimeout env n.safety validators = .ok r) :
    Trace ctx e n (pacemakerActs ctx r.2.2) (n.withPacemaker r) ∧
      r.1.getCurrentRound = n.getCurrentRound := by
  obtain ⟨p, s, cmds⟩ := r
  rcases joinTimeout_ok h with ⟨rfl, rfl, rfl⟩ | hto
  · exact ⟨.nil n, rfl⟩
  · obtain ⟨rfl, -⟩ := processLocalTimeout_ok hto
    exact ⟨.single (.timeout hto), rfl⟩

section

variable {validators : ValidatorSet} {mapping : ValidatorMapping}
  (hm : e = .message author (.timeout m))
  (hv : ctx.valEpochMap m.tminfo.epoch = some (validators, mapping))

include hm hv

variable {r : Pacemaker T × Safety T × List (PacemakerCommand T)}

/-- The aggregation loop drops timeouts and may end with a certificate. -/
theorem trace_aggregateTimeouts {fuel : ℕ} (hround : m.tminfo.round = n.getCurrentRound)
    (h : aggregateTimeouts env n.epochManager validators mapping m.tminfo.epoch
      m.tminfo.round fuel n.pacemaker n.safety = .ok r) :
    Trace ctx e n (pacemakerActs ctx r.2.2) (n.withPacemaker r) := by
  obtain ⟨p', s', cmds⟩ := r
  obtain ⟨p, hshrunk, ⟨rfl, rfl, rfl⟩ | ⟨tc, hnew, hmaj, hcert⟩⟩ := aggregateTimeouts_ok h
  · exact .single (.drop hshrunk)
  have hdrop : Step ctx e n [] { n with pacemaker := p } := .drop hshrunk
  have horigin : Origin ctx e p (.tc tc) :=
    .timeouts hm (by rw [hround, Pacemaker.getCurrentRound, hshrunk.highCertificate]; rfl) hv hnew
      hmaj
  exact (Reach.single hdrop).append (.single (.certificate horigin hcert))

theorem trace_processRemoteTimeout (hqc : m.highExtend.getQc.getRound < n.getCurrentRound)
    (h : n.pacemaker.processRemoteTimeout env n.safety n.epochManager validators mapping author m =
      .ok r) : Trace ctx e n (pacemakerActs ctx r.2.2) (n.withPacemaker r) := by
  obtain ⟨p', s', cmds⟩ := r
  rcases processRemoteTimeout_ok h with
    ⟨rfl, rfl, rfl⟩ | ⟨hround, p₁, s₁, cmds₁, cmds₂, rfl, hjoin, hagg⟩
  · exact .nil n
  · have hstore : Step ctx e n [] { n with pacemaker := n.pacemaker.insertTimeout author m } :=
      .store hm hround hqc
    obtain ⟨hj, hr⟩ := @trace_joinTimeout T env ctx e
      { n with pacemaker := n.pacemaker.insertTimeout author m } _ _ hjoin
    have ha := @trace_aggregateTimeouts T env ctx e
      ({ n with pacemaker := p₁, safety := s₁ } : Node env) author m validators mapping hm hv
      _ _ (hround.trans hr.symm) hagg
    have htrace := ((Reach.single hstore).append hj).append ha
    rw [nil_append, ← pacemakerActs_append] at htrace
    exact htrace

theorem follows_processRemoteTimeout (hround : m.tminfo.round ≤ n.getCurrentRound)
    (hqc : m.highExtend.getQc.getRound < n.getCurrentRound) :
    Proceeds ctx e (processRemoteTimeout ctx validators mapping author m) n := by
  refine .get_bind (.lift_bind (fun r hr => ?_) fun panic herr hn => ?_)
  · exact follows_step rfl (trace_processRemoteTimeout hm hv hqc hr) (commandsOf_map_cmd _) trivial
  · exact processRemoteTimeout_error herr hround hn.vote_le

end

/-- The certificates of a well-formed timeout bring the node to the timeout's round. -/
theorem follows_handleTimeoutMessage (hm : e = .message author (.timeout m))
    (hform : m.wellFormedTimeout = .ok ())
    (hepoch : n.epochManager.getEpoch m.tminfo.round = some m.tminfo.epoch) :
    Proceeds ctx e (handleTimeoutMessage ctx author m) n := by
  refine .get_bind (.guard trivial fun _ => ?_)
  refine .lift_bind ?_ fun panic herr _ => validatorsAt_error herr
  rintro ⟨validators, mapping⟩ hv
  obtain ⟨epoch, hep, hv⟩ := validatorsAt_ok hv
  obtain rfl : epoch = m.tminfo.epoch := Option.some.inj (hep.symm.trans hepoch)
  have hcarried : ∀ cert ∈ e.certificates, ∀ pm, Origin ctx e pm cert := fun _ hc _ => .carried hc
  refine .bind (follows_processQc (hcarried _ (by simp [hm, Event.certificates])))
    fun _ n₁ _ _ h₁ => ?_
  refine Follows.bind (Follows.round_le (follows_handleTimeoutVote _ _ (by rw [hm]; rfl)))
    fun _ n₂ _ _ h₂ => ?_
  refine Follows.bind (Follows.round_le (follows_handleLastRoundCertificate fun cert hc =>
    hcarried cert (by simp [hm, Event.certificates, hc]))) fun _ n₃ _ _ h₃ => ?_
  have hqc : m.highExtend.getQc.getRound < n₃.getCurrentRound := h₁.trans_le (h₂.2.trans h₃.2)
  have hround : m.tminfo.round ≤ n₃.getCurrentRound := by
    rcases (TimeoutMessage.wellFormedTimeout_ok hform).2 with ⟨hcons, -⟩ | ⟨cert, hc, hr⟩
    · omega
    · have := h₃.1 cert hc
      omega
  exact .bind (follows_processRemoteTimeout hm hv hround hqc) fun _ n₄ _ _ _ =>
    (follows_tryPropose.mono fun _ _ _ => trivial)

theorem follows_noEndorse {m : RoundRecoveryMessage T} (hm : e = .message author (.roundRecovery m))
    (htip : m.tc.highExtend = .tip tip) (hround : m.round = n.getCurrentRound) :
    Proceeds ctx e (noEndorse ctx author epoch m.round tip) n := by
  refine .get_bind (.guard trivial fun _ => .guard trivial fun hsafe => ?_)
  have hs : n.safety.noEndorse m.round (env.getId tip.blockHeader) = .ok _ :=
    if_pos (by simpa using hsafe)
  refine .lift_ok_bind hs ?_
  exact follows_step rfl (.single (.noEndorse hm htip hround hs rfl rfl)) rfl trivial

theorem follows_handleRoundRecoveryMessage {m : RoundRecoveryMessage T}
    (hm : e = .message author (.roundRecovery m)) :
    Proceeds ctx e (handleRoundRecoveryMessage ctx author m) n := by
  refine .get_bind ?_
  refine .lift_bind (fun epoch _ => ?_) fun panic herr _ => epochOf_error herr
  refine .lift_bind ?_ fun panic herr _ => validatorsOf_error herr
  rintro ⟨validators, mapping⟩ -
  refine .bind (follows_processTc fun _ => .carried (by simp [hm, Event.certificates]))
    fun _ n₁ _ _ _ => .get_bind (.guard trivial fun hcond => ?_)
  split
  · exact .pure trivial
  next tip htip => exact follows_noEndorse hm htip (not_not.mp fun hne => hcond (.inl hne))

theorem follows_handleNoEndorsementMessage (author : NodeId) (m : NoEndorsementMessage T) :
    Proceeds ctx e (handleNoEndorsementMessage ctx author m) n := by
  refine .get_bind (.guard trivial fun _ => .guard trivial fun _ => ?_)
  refine .lift_bind ?_ fun panic herr _ => validatorsAt_error herr
  rintro ⟨validators, mapping⟩ -
  refine .lift_bind ?_ fun panic herr _ => (NoEndorsementState.processNoEndorsement_error herr).1
  rintro ⟨maybeNec, noEndorsementState⟩ hne
  refine .bind (P := fun _ _ => True) (follows_quiet rfl
    ⟨⟨rfl, rfl, rfl, rfl⟩, rfl, rfl, rfl, fun hk => hk.processNoEndorsement hne,
      fun _ hh => .inl hh⟩ (by simp) trivial) fun _ n₁ _ _ _ => ?_
  cases maybeNec with
  | none => exact .pure trivial
  | some nec => exact follows_tryPropose.mono fun _ _ _ => trivial

theorem follows_handleAdvanceRoundMessage {m : AdvanceRoundMessage T}
    (hm : e = .message author (.advanceRound m)) :
    Proceeds ctx e (handleAdvanceRoundMessage ctx m) n := by
  have hcarried : ∀ p, Origin ctx e p m.lastRoundCertificate :=
    fun _ => .carried (by simp [hm, Event.certificates])
  unfold handleAdvanceRoundMessage
  split
  next tc htc =>
    rw [htc] at hcarried
    exact (follows_processTc hcarried).mono fun _ _ _ => trivial
  next qc hqc =>
    rw [hqc] at hcarried
    refine .get_bind (.guard trivial fun _ => ?_)
    refine .bind (follows_processQc hcarried) fun _ n₁ _ _ _ => .get_bind ?_
    refine .lift_bind (fun leader _ => ?_) fun panic herr _ => leaderAt_error herr
    exact follows_command rfl ⟨⟨rfl, rfl, rfl⟩, trivial⟩ trivial

/-! ## Block sync and timers -/

theorem follows_addSyncedBlocks :
    ∀ (blocks : List (ConsensusFullBlock env)) {n : Node env},
      (∀ b ∈ blocks, b.header ∈ e.headers) →
      Proceeds ctx e (addSyncedBlocks ctx blocks) n
  | [], _, _ => .pure trivial
  | fullBlock :: blocks, n, hblocks => by
    have hrest := fun b hb => hblocks b (mem_cons_of_mem _ hb)
    refine .get_bind ?_
    split
    · exact follows_addSyncedBlocks blocks hrest
    refine .lift_bind (fun block hvalidate => ?_) fun panic herr _ =>
      validateBlock_error herr
    cases block with
    | none => exact .pure trivial
    | some block =>
      have hblock := (validateBlock_ok hvalidate).imp_right fun h =>
        show block.header ∈ e.headers by
          rw [h]
          exact hblocks fullBlock mem_cons_self
      exact .bind (follows_tryAddAndCommitBlocktree hblock (by simp)) fun _ n₁ _ _ _ =>
        follows_addSyncedBlocks blocks hrest

theorem follows_handleBlockSync {range : BlockRange T} {blocks : List (ConsensusFullBlock env)}
    (he : e = .blockSync range blocks) : Proceeds ctx e (handleBlockSync ctx range blocks) n := by
  have hblocks : ∀ b ∈ blocks, b.header ∈ e.headers := by
    intro b hb
    rw [he]
    exact mem_map_of_mem hb
  refine .get_bind (.guard trivial fun _ => ?_)
  refine .bind (follows_addSyncedBlocks blocks hblocks) fun _ n₁ _ _ _ => ?_
  exact follows_quiet rfl (Untouched.quiet ⟨rfl, rfl, rfl, rfl⟩ rfl rfl) (by simp) trivial

theorem follows_handleVoteTimer : Proceeds ctx e (handleVoteTimer ctx) n := by
  refine .get_bind ?_
  split
  next v hv =>
    intro _
    refine .mono (sat_sendVoteAndResetTimer v) ?_ fun _ h => h
    rintro _ n' cmds ⟨rfl, hcmds⟩
    exact ⟨⟨cmds.map .cmd, commandsOf_map_cmd cmds, .single (.send hv (sendsOnly_in hcmds))⟩, trivial⟩
  · exact follows_step rfl (.single .timerFired) rfl trivial

/-- Every handler, on a valid event, proceeds by steps and trips no assertion. -/
theorem follows_handle (hvalid : e.Valid ctx n) : Proceeds ctx e (handle ctx e) n := by
  rcases e with ⟨author, m⟩ | round | round | ⟨range, blocks⟩
  · cases m with
    | proposal p => exact follows_handleProposalMessage rfl
    | vote m => exact follows_handleVoteMessage author rfl
    | timeout m =>
      obtain ⟨hform, hepoch, -⟩ := TimeoutMessage.validate_ok hvalid.2
      exact follows_handleTimeoutMessage rfl hform hepoch
    | roundRecovery m => exact follows_handleRoundRecoveryMessage rfl
    | noEndorsement m => exact follows_handleNoEndorsementMessage author m
    | advanceRound m => exact follows_handleAdvanceRoundMessage rfl
  · exact follows_handleTimeoutExpiry round
  · exact follows_handleVoteTimer
  · exact follows_handleBlockSync rfl

end Node

end MonadBft
