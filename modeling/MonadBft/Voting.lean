import MonadBft.Run

/-!
# Votes of one node

A node casts at most one vote per round, for a proposal of that round. It signs a vote
when it sends it, and again in timeouts, which repeat the vote for its high tip.
`VoteHistory` relates the votes cast and signed in a run to the state: the high tip is
that of the last vote cast, and a vote signed for a round is for the last proposal voted
for up to that round. Hence all votes signed for one round are for the same block, and so
are all QCs of one round (`HonestRuns.qc_unique`).
-/

namespace MonadBft

variable {T : Types} {env : Env T} {id : NodeId} {C : Condition env} {ctx : Ctx env}
  {e : Event env} {start : ℕ} {n₀ n n' : Node env} {log : List (Entry env)}
  {acts a : List (Act env)} {cmds : List (ConsensusCommand env)} {p : ProposalMessage T}

/-- `p` is the last proposal up to `round` that was voted for. -/
structure LastVoted (acts : List (Act env)) (round : ℕ) (p : ProposalMessage T) : Prop where
  voted : .voted p ∈ acts
  le : p.proposalRound ≤ round
  last : ∀ p', .voted p' ∈ acts → p'.proposalRound ≤ round → p'.proposalRound ≤ p.proposalRound

/-- How the votes of a run that started in round `start` relate to the state. -/
structure VoteHistory (start : ℕ) (log : List (Entry env)) (acts : List (Act env))
    (n : Node env) : Prop where
  start_le : start ≤ n.safety.highestVote
  cast : ∀ p, .voted p ∈ acts → start < p.proposalRound ∧ p.proposalRound ≤ n.safety.highestVote
  unique : ∀ p p', .voted p ∈ acts → .voted p' ∈ acts → p.proposalRound = p'.proposalRound → p = p'
  delivered : ∀ p, .voted p ∈ acts → p ∈ proposalsIn log
  scheduled : ∀ v, n.scheduledVote = some (.voteReady v) → ∃ p, .voted p ∈ acts ∧
    p.proposalRound = v.round ∧ env.getId p.tip.blockHeader = v.id
  tip : ∀ tip, n.safety.maybeHighTip = some tip → ∃ p, p.tip = tip ∧
    LastVoted acts n.safety.highestVote p
  signed : ∀ v, .vote v ∈ signedIn log → v.round ≤ n.safety.highestVote ∧
    ∃ p, env.getId p.tip.blockHeader = v.id ∧ LastVoted acts v.round p

/-- Votes in later rounds make no difference. -/
theorem LastVoted.append {round : ℕ} (h : LastVoted acts round p)
    (ha : ∀ p', Act.voted p' ∈ a → round < p'.proposalRound) : LastVoted (acts ++ a) round p where
  voted := List.mem_append_left _ h.voted
  le := h.le
  last p' hp' hle := by
    rcases List.mem_append.mp hp' with hp' | hp'
    · exact h.last p' hp' hle
    · exact absurd (ha p' hp') (not_lt.mpr hle)

namespace VoteHistory

theorem init (hstart : start ≤ n₀.safety.highestVote) (htip : n₀.safety.maybeHighTip = none)
    (hsched : n₀.scheduledVote = none) : VoteHistory start [] [] n₀ where
  start_le := hstart
  cast p hp := by cases hp
  unique p p' hp := by cases hp
  delivered p hp := by cases hp
  scheduled v hv := by simp [hsched] at hv
  tip tip ht := by simp [htip] at ht
  signed v hv := by cases hv

/-- A new event changes nothing yet. -/
theorem event (h : VoteHistory start log acts n) : VoteHistory start (log ++ [⟨e, []⟩]) acts n where
  start_le := h.start_le
  cast := h.cast
  unique := h.unique
  delivered p hp := by
    rw [proposalsIn_snoc]
    exact List.mem_append_left _ (h.delivered p hp)
  scheduled := h.scheduled
  tip := h.tip
  signed v hv := h.signed v (by simpa [signedIn, signedBy] using hv)

section

variable (h : VoteHistory start (log ++ [⟨e, cmds⟩]) acts n)

include h

/-- A step that casts no vote may raise `highestVote`, forget the high tip or the scheduled
vote, and sign the vote it had scheduled or a vote for its high tip. -/
theorem extend (hn : NodeInv n) (ha : ∀ p, .voted p ∉ a)
    (hvote : n.safety.highestVote ≤ n'.safety.highestVote)
    (htip : ∀ tip, n'.safety.maybeHighTip = some tip → n.safety.maybeHighTip = some tip)
    (hsched : ∀ v, n'.scheduledVote = some (.voteReady v) → n.scheduledVote = some (.voteReady v))
    (hsigned : ∀ v, .vote v ∈ signedBy (commandsOf a) → n.scheduledVote = some (.voteReady v) ∨
      n.safety.highestVote ≤ v.round ∧ v.round ≤ n'.safety.highestVote ∧
        ∃ tip, n.safety.maybeHighTip = some tip ∧ env.getId tip.blockHeader = v.id) :
    VoteHistory start (log ++ [⟨e, cmds ++ commandsOf a⟩]) (acts ++ a) n' := by
  have hmem : ∀ {p}, Act.voted p ∈ acts ++ a ↔ Act.voted p ∈ acts := by
    intro p
    simp [ha p]
  have hlast : ∀ {p r r'}, LastVoted acts r p → n.safety.highestVote ≤ r → r ≤ r' →
      LastVoted (acts ++ a) r' p := by
    intro p r r' hp hr hrr'
    refine LastVoted.append ⟨hp.voted, hp.le.trans hrr', fun p' hp' _ => ?_⟩
      fun p' hp' => absurd hp' (ha p')
    exact hp.last p' hp' ((h.cast p' hp').2.trans hr)
  refine ⟨h.start_le.trans hvote, fun p hp => ?_, fun p p' hp hp' => ?_, fun p hp => ?_,
    fun v hv => ?_, fun tip ht => ?_, fun v hv => ?_⟩
  · obtain ⟨hlt, hle⟩ := h.cast p (hmem.mp hp)
    exact ⟨hlt, hle.trans hvote⟩
  · exact h.unique p p' (hmem.mp hp) (hmem.mp hp')
  · have hp := h.delivered p (hmem.mp hp)
    rw [proposalsIn_snoc] at hp ⊢
    exact hp
  · obtain ⟨p, hp, hr, hid⟩ := h.scheduled v (hsched v hv)
    exact ⟨p, hmem.mpr hp, hr, hid⟩
  · obtain ⟨p, rfl, hp⟩ := h.tip tip (htip tip ht)
    exact ⟨p, rfl, hlast hp le_rfl hvote⟩
  · rcases mem_signedIn_snoc.mp hv with hv | hv
    · obtain ⟨hle, p, hid, hp⟩ := h.signed v hv
      exact ⟨hle.trans hvote, p, hid, hp.append fun p' hp' => absurd hp' (ha p')⟩
    rcases hsigned v hv with hv | ⟨hge, hle, tip, ht, hid⟩
    · obtain ⟨p, hp, hr, hid⟩ := h.scheduled v hv
      exact ⟨(hn.scheduled v hv).trans hvote, p, hid, hmem.mpr hp, hr.le,
        fun p' _ hle => hle.trans hr.ge⟩
    · obtain ⟨p, rfl, hp⟩ := h.tip tip ht
      exact ⟨hle, p, hid, hlast hp le_rfl hge⟩

/-- Casting a vote opens a new last round. -/
theorem vote {author : NodeId} {safety : Safety T} (he : e = .message author (.proposal p))
    (hround : p.proposalRound = n.getCurrentRound)
    (hvote : n.safety.vote n.getCurrentRound (Node.lastRoundTcTip env p.lastRoundTc) p.tip =
      .ok safety) :
    VoteHistory start (log ++ [⟨e, cmds⟩]) (acts ++ [.voted p])
      { n with safety, scheduledVote := some (.voteReady (n.voteFor p)) } := by
  obtain ⟨hsafe, rfl⟩ := Safety.vote_eq_ok.mp hvote
  have hlt : n.safety.highestVote < p.proposalRound :=
    (Safety.isSafeToVote_eq_true.mp hsafe).1.trans_eq hround.symm
  have hmem : ∀ {p'}, Act.voted p' ∈ acts ++ [.voted p] ↔ Act.voted p' ∈ acts ∨ p' = p := by
    intro p'
    simp
  have hnew : LastVoted (acts ++ [.voted p]) n.getCurrentRound p :=
    ⟨hmem.mpr (.inr rfl), hround.le, fun p' _ hle => hle.trans hround.ge⟩
  refine ⟨(h.start_le.trans hlt.le).trans hround.le, fun p' hp' => ?_, fun p₁ p₂ h₁ h₂ hr => ?_,
    fun p' hp' => ?_, ?_, fun tip ht => ?_, fun v hv => ?_⟩
  · rcases hmem.mp hp' with hp' | rfl
    · obtain ⟨hs, hle⟩ := h.cast p' hp'
      exact ⟨hs, (hle.trans hlt.le).trans hround.le⟩
    · exact ⟨h.start_le.trans_lt hlt, hround.le⟩
  · rcases hmem.mp h₁ with hc₁ | he₁ <;> rcases hmem.mp h₂ with hc₂ | he₂
    · exact h.unique p₁ p₂ hc₁ hc₂ hr
    · exact absurd (h.cast p₁ hc₁).2 (by rw [hr, he₂]; omega)
    · exact absurd (h.cast p₂ hc₂).2 (by rw [← hr, he₁]; omega)
    · rw [he₁, he₂]
  · rcases hmem.mp hp' with hp' | rfl
    · exact h.delivered p' hp'
    · rw [proposalsIn_snoc, he]
      simp [Event.proposal?]
  · rintro v ⟨⟩
    exact ⟨p, hmem.mpr (.inr rfl), hround, rfl⟩
  · dsimp only at ht
    split at ht
    · cases ht
      exact ⟨p, rfl, hnew⟩
    · cases ht
  · obtain ⟨hle, p', hid, hp'⟩ := h.signed v hv
    refine ⟨(hle.trans hlt.le).trans hround.le, p', hid, hp'.append fun q hq => ?_⟩
    obtain rfl : q = p := by simpa using hq
    exact hle.trans_lt hlt

theorem step (hn : NodeInv n) (hs : Step ctx e n a n') :
    VoteHistory start (log ++ [⟨e, cmds ++ commandsOf a⟩]) (acts ++ a) n' := by
  have hcmd : ∀ (cs : List (ConsensusCommand env)) (p : ProposalMessage T),
      Act.voted p ∉ cs.map Act.cmd := by simp
  cases hs with
  | quiet hq hc =>
    refine h.extend hn (hcmd _) hq.safety.highestVote.ge (fun tip => ?_) (fun v => ?_) ?_
    · rw [hq.safety.maybeHighTip]
      exact id
    · rw [hq.scheduledVote]
      exact id
    · rw [commandsOf_map_cmd, signedBy_quiet hc]
      simp
  | certificate _ hc =>
    refine h.extend hn (hcmd _) ?_ (fun tip => ?_) (fun v hv => hv) ?_
    · rcases certificate_spec ctx hc with ⟨-, hn', -⟩ | ⟨-, epoch, -, hn', -⟩
      · rw [hn']
      · rw [hn']
        exact le_rfl
    · rcases certificate_spec ctx hc with ⟨-, hn', -⟩ | ⟨-, epoch, -, hn', -⟩
      · rw [hn']
        exact id
      · rw [hn']
        exact fun ht => (Safety.maybeHighTip_processCertificate.mp ht).1
    · rcases certificate_spec ctx hc with ⟨-, -, hcs⟩ | ⟨-, epoch, -, -, hcs⟩ <;>
        simp [hcs, signedBy, ConsensusCommand.signed]
  | timeout hto =>
    obtain ⟨hn', hcs⟩ := timeout_spec ctx hto
    rw [hn']
    refine h.extend hn (hcmd _) hn.vote_le (fun tip => id) (fun v => id) fun v hv => .inr ?_
    rw [hcs] at hv
    obtain ⟨tip, htip, -, rfl⟩ := Node.vote?_ownTimeout.mp
      (show (n.ownTimeout ctx).vote? env = some v by
        simpa [signedBy, ConsensusCommand.signed] using hv)
    exact ⟨hn.vote_le, le_rfl, tip, htip, rfl⟩
  | vote he hround hvote =>
    rw [commandsOf_voted, List.append_nil]
    exact h.vote he hround hvote
  | @send v _ hsched hc =>
    refine h.extend hn (hcmd _) le_rfl (fun tip => id) (by simp) fun v' hv' => .inl ?_
    rw [commandsOf_map_cmd] at hv'
    obtain rfl : v' = v := by simpa using eq_vote_of_mem_signedBy_send hc hv'
    exact hsched
  | noEndorse _ _ _ hne _ _ =>
    obtain ⟨-, rfl⟩ := Safety.noEndorse_eq_ok.mp hne
    exact h.extend hn (by simp) le_rfl (fun tip => id) (fun v => id)
      (by simp [ConsensusCommand.signed])
  | commit _ _ =>
    exact h.extend hn (by simp) le_rfl (fun tip => id) (fun v => id)
      (by simp [ConsensusCommand.signed])
  | store _ _ _ =>
    exact h.extend hn (by simp) le_rfl (fun tip => id) (fun v => id) (by simp)
  | drop _ =>
    exact h.extend hn (by simp) le_rfl (fun tip => id) (fun v => id) (by simp)
  | timerFired =>
    exact h.extend hn (by simp) le_rfl (fun tip => id) (by simp) (by simp)

end

end VoteHistory

/-- The votes of every run are in order. -/
theorem Run.voteHistory {em : EpochManager} {root : RootInfo T} {cert : RoundCertificate T}
    (hnew : Node.new env em root cert = .ok n₀) (hrun : Run id C n₀ log n) :
    ∃ acts, VoteHistory n₀.getCurrentRound log acts n := by
  have hn := Node.inv_new hnew
  obtain ⟨epoch, -, rfl⟩ := Node.new_ok hnew
  exact hrun.history hn (VoteHistory.init le_rfl rfl rfl) (fun _ _ h => h.event)
    fun _ _ hn h hs => h.step hn hs

/-- **No equivocation.** In every run of a node, all votes it signs for one round, in vote
messages and in timeouts, are for the same block, and it signs none for the round it
started in. -/
theorem Run.no_equivocation {em : EpochManager} {root : RootInfo T} {cert : RoundCertificate T}
    (hnew : Node.new env em root cert = .ok n₀) (hrun : Run id anyEvent n₀ log n) :
    (∀ v v', .vote v ∈ signedIn log → .vote v' ∈ signedIn log → v.round = v'.round → v.id = v'.id) ∧
      ∀ v, .vote v ∈ signedIn log → v.round ≠ n₀.getCurrentRound := by
  obtain ⟨acts, h⟩ := hrun.voteHistory hnew
  refine ⟨fun v v' hv hv' hround => ?_, fun v hv => ?_⟩
  · -- both votes are for the last proposal voted for up to the round
    obtain ⟨-, p, hid, hp⟩ := h.signed v hv
    obtain ⟨-, p', hid', hp'⟩ := h.signed v' hv'
    have hle := hp'.last p hp.voted (hp.le.trans_eq hround)
    have hge := hp.last p' hp'.voted (hp'.le.trans_eq hround.symm)
    rw [← hid, ← hid', h.unique p p' hp.voted hp'.voted (le_antisymm hle hge)]
  · obtain ⟨-, p, -, hp⟩ := h.signed v hv
    exact ((h.cast p hp.voted).1.trans_le hp.le).ne'

/-- The vote of the second round is signed twice. -/
theorem Run.no_equivocation_firstRun :
    (∃ v, (signedIn Ideal.firstRun.1).count (.vote v) = 2) ∧
    (∀ v v', .vote v ∈ signedIn Ideal.firstRun.1 → .vote v' ∈ signedIn Ideal.firstRun.1 →
        v.round = v'.round → v.id = v'.id) ∧
      ∀ v, .vote v ∈ signedIn Ideal.firstRun.1 → v.round ≠ 1 :=
  ⟨⟨{ id := Ideal.headerId Ideal.tipTwo.blockHeader, round := 2, epoch := 1 }, by decide +kernel⟩,
    Run.no_equivocation Ideal.new_genesisNode Ideal.run_firstRun⟩

/-! ## Certified blocks -/

/-- The faulty validators hold at most a third of the stake. Each of the others has signed in a run
what QCs have of its votes. -/
structure HonestRuns (validators : ValidatorSet) (mapping : ValidatorMapping)
    (qcs : List (QuorumCertificate T)) (faulty : List NodeId) (log : NodeId → List (Entry env)) :
    Prop where
  stake : validators.hasHonestVote faulty = .ok false
  run : ∀ id ∈ validators.getMembers, id ∉ faulty → ∃ em root cert n₀ n,
    Node.new env em root cert = .ok n₀ ∧ Run id anyEvent n₀ (log id) n
  signed : ∀ qc ∈ qcs, ∀ signers,
    env.verifyCollection qc.signatures mapping (.vote qc.info) = some signers →
      ∀ id ∈ signers, id ∉ faulty → .vote qc.info ∈ signedIn (log id)

/-- **One block a round.** All QCs of a round that verify are for one block, whatever the honest
validators have been through, and one of those was handed a proposal of that block. -/
theorem HonestRuns.qc_unique {validators : ValidatorSet} {mapping : ValidatorMapping}
    {qc qc' : QuorumCertificate T} {faulty : List NodeId} {log : NodeId → List (Entry env)}
    {validatorsOf : EpochToValidators} {leader : NodeId}
    (h : HonestRuns validators mapping [qc, qc'] faulty log)
    (hval : validatorsOf qc.getEpoch qc.getRound = .ok (validators, mapping, leader))
    (hT : 2 * validators.totalStake < 2 ^ 256) (hqc : verifyQc env validatorsOf qc = .ok ())
    (hqc' : verifyQc env validatorsOf qc' = .ok ()) (hepoch : qc'.getEpoch = qc.getEpoch)
    (hround : qc'.getRound = qc.getRound) :
    qc.getBlockId = qc'.getBlockId ∧ (qc.getRound ≠ GENESIS_ROUND →
      ∃ id ∈ validators.getMembers, id ∉ faulty ∧ ∃ p ∈ proposalsIn (log id),
        p.proposalRound ≤ qc.getRound ∧ env.getId p.tip.blockHeader = qc.getBlockId) := by
  rcases verifyQc_ok hqc with ⟨hzero, hgenesis⟩ | ⟨hpos, hsig⟩ <;>
    rcases verifyQc_ok hqc' with ⟨hzero', hgenesis'⟩ | ⟨hpos', hsig'⟩
  · rw [hgenesis, hgenesis']
    exact ⟨rfl, fun hpos => absurd rfl hpos⟩
  · exact absurd (hround.trans hzero) hpos'
  · exact absurd (hround.symm.trans hzero') hpos
  rw [hepoch, hround] at hsig'
  obtain ⟨A, hA, hsuper⟩ := verifySigned_ok hval hsig
  obtain ⟨B, hB, hsuper'⟩ := verifySigned_ok hval hsig'
  -- an honest validator has signed both votes, for the proposal it voted for last
  obtain ⟨id, hmem, hidA, hidB, hid⟩ := validators.exists_mem_common hT hsuper hsuper' h.stake
  obtain ⟨em, root, cert, n₀, n, hnew, hrun⟩ := h.run id hmem hid
  obtain ⟨acts, hvotes⟩ := hrun.voteHistory hnew
  obtain ⟨-, p, hp, hlast⟩ := hvotes.signed _ (h.signed qc (by simp) A hA id hidA hid)
  obtain ⟨-, p', hp', hlast'⟩ := hvotes.signed _ (h.signed qc' (by simp) B hB id hidB hid)
  have hle := hlast'.last p hlast.voted (hlast.le.trans_eq hround.symm)
  have hge := hlast.last p' hlast'.voted (hlast'.le.trans_eq hround)
  obtain rfl := hvotes.unique p p' hlast.voted hlast'.voted (le_antisymm hle hge)
  exact ⟨hp.symm.trans hp',
    fun _ => ⟨id, hmem, hid, p, hvotes.delivered p hlast.voted, hlast.le, hp⟩⟩

/-- Node 2 is faulty, and holds a sixth of the stake. -/
theorem HonestRuns.qc_unique_firstRun : ∃ qc qc' : QuorumCertificate Ideal.types, qc ≠ qc' ∧
    qc.getBlockId = qc'.getBlockId := by
  let validators : ValidatorSet := ⟨[(1, 5), (2, 1)], by decide, by decide, by decide⟩
  let validatorsOf : EpochToValidators := fun _ _ => .ok (validators, Ideal.keys, 0)
  let qcTwo (nodes : List NodeId) := Ideal.qc nodes (Ideal.headerId Ideal.tipTwo.blockHeader) 2 1
  have hvote : .vote (qcTwo [1]).info ∈ signedIn Ideal.firstRun.1 := by decide +kernel
  have h : HonestRuns validators Ideal.keys [qcTwo [1], qcTwo [1, 2]] [2]
      fun _ => Ideal.firstRun.1 := by
    refine ⟨by decide, fun id hid hne => ?_, fun qc hqc _ _ _ _ _ => ?_⟩
    · obtain rfl : id = 1 := by simpa [validators, ValidatorSet.getMembers, hne] using hid
      exact ⟨_, _, _, _, _, Ideal.new_genesisNode, Ideal.run_firstRun⟩
    · rcases List.mem_pair.mp hqc with rfl | rfl <;> exact hvote
  exact ⟨qcTwo [1], qcTwo [1, 2], by decide +kernel, (h.qc_unique (rfl : validatorsOf 1 2 = _)
    (by decide) (by decide +kernel) (by decide +kernel) rfl rfl).1⟩

end MonadBft
