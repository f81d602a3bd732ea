import MonadBft.Voting

/-!
# Votes and no-endorsements of one node

A node that declined to endorse the tip of a TC may still vote in that round, but only for
a proposal that carries a TC with the same tip. Three operations keep votes and
no-endorsements apart, each by another test: `isSafeToVote`, `isSafeToNoEndorse` and
`safeToIncludeVote`. The last one lets a timeout repeat a vote for the high tip if the
tip's block is of the round that times out, and takes that for a sign that the tip was
voted for in that round. `DeclineHistory` is what then holds along a run in which no
proposal's block is of a later round than the proposal.
-/

namespace MonadBft

open List

variable {T : Types} {env : Env T} {id : NodeId} {ctx : Ctx env} {e : Event env} {start : ℕ}
  {n₀ n n' : Node env} {log : List (Entry env)} {acts a : List (Act env)}
  {cmds cmds' : List (ConsensusCommand env)} {msg : SigningMessage T} {round : ℕ}
  {entry : Entry env}

/-- The rounds of the no-endorsements among what a node signs. -/
def declinedRounds (msgs : List (SigningMessage T)) : List ℕ :=
  msgs.filterMap fun
    | .noEndorsement ne => some ne.round
    | _ => none

theorem mem_declinedRounds {msgs : List (SigningMessage T)} :
    round ∈ declinedRounds msgs ↔ ∃ ne, .noEndorsement ne ∈ msgs ∧ ne.round = round := by
  unfold declinedRounds
  rw [mem_filterMap]
  constructor
  · rintro ⟨msg, hmem, hmsg⟩
    cases msg with
    | noEndorsement ne => exact ⟨ne, hmem, by simpa using hmsg⟩
    | vote v => cases hmsg
    | timeout t => cases hmsg
  · rintro ⟨ne, hmem, rfl⟩
    exact ⟨_, hmem, rfl⟩

/-- No proposal's block is of a later round than the proposal. -/
def noBlockAhead : Condition env := fun _ _ e =>
  ∀ p ∈ e.proposal?, p.tip.blockHeader.blockRound ≤ p.proposalRound

/-- The tip a leader asks about. -/
def Event.recoveryTip? : Event env → Option (ConsensusTip T)
  | .message _ (.roundRecovery m) =>
    match m.tc.highExtend with
    | .tip tip => some tip
    | .qc _ => none
  | _ => none

/-- The node declined to endorse `tip` in `round`, answering the event of `entry`. -/
structure Declined (entry : Entry env) (round : ℕ) (tip : ConsensusTip T) : Prop where
  signed : round ∈ declinedRounds (signedBy entry.commands)
  asked : entry.event.recoveryTip? = some tip

instance (entry : Entry env) (round : ℕ) (tip : ConsensusTip T) :
    Decidable (Declined entry round tip) :=
  decidable_of_iff (round ∈ declinedRounds (signedBy entry.commands) ∧
    entry.event.recoveryTip? = some tip) ⟨fun h => ⟨h.1, h.2⟩, fun h => ⟨h.1, h.2⟩⟩

/-- How the no-endorsements of a run relate to its votes and to the state. -/
structure DeclineHistory (log : List (Entry env)) (acts : List (Act env)) (n : Node env) :
    Prop where
  notAhead : ∀ p ∈ proposalsIn log, p.tip.blockHeader.blockRound ≤ p.proposalRound
  rounds : (declinedRounds (signedIn log)).Nodup
  le : ∀ round ∈ declinedRounds (signedIn log), round ≤ n.safety.highestNoEndorse.round
  tip : ∀ entry ∈ log, ∀ tip, Declined entry n.safety.highestNoEndorse.round tip →
    n.safety.highestNoEndorse.tip = env.getId tip.blockHeader
  /-- A vote cast in a round whose TC was declined is for a proposal that carries the TC. -/
  cast : ∀ entry ∈ log, ∀ round tip, Declined entry round tip → ∀ p, .voted p ∈ acts →
    p.proposalRound = round →
      Node.lastRoundTcTip env p.lastRoundTc = some (env.getId tip.blockHeader)
  /-- A vote signed for such a round was cast in it. -/
  signed : ∀ v, .vote v ∈ signedIn log → v.round ∈ declinedRounds (signedIn log) →
    ∃ p, .voted p ∈ acts ∧ p.proposalRound = v.round ∧ env.getId p.tip.blockHeader = v.id

@[simp] theorem declinedRounds_append (msgs msgs' : List (SigningMessage T)) :
    declinedRounds (msgs ++ msgs') = declinedRounds msgs ++ declinedRounds msgs' :=
  filterMap_append

theorem declinedRounds_snoc :
    declinedRounds (signedIn (log ++ [⟨e, cmds ++ cmds'⟩])) =
      declinedRounds (signedIn (log ++ [⟨e, cmds⟩])) ++ declinedRounds (signedBy cmds') := by
  simp [signedIn, ← declinedRounds_append]

theorem Declined.mem {tip : ConsensusTip T} (h : Declined entry round tip) (hentry : entry ∈ log) :
    round ∈ declinedRounds (signedIn log) := by
  obtain ⟨ne, hne, hround⟩ := mem_declinedRounds.mp h.signed
  exact mem_declinedRounds.mpr ⟨ne, mem_flatMap.mpr ⟨entry, hentry, hne⟩, hround⟩

/-- A no-endorsement is an old one or among what the last event signs now. -/
theorem Declined.snoc {tip : ConsensusTip T} (h : Declined entry round tip)
    (hentry : entry ∈ log ++ [⟨e, cmds ++ cmds'⟩]) :
    (∃ entry' ∈ log ++ [⟨e, cmds⟩], Declined entry' round tip) ∨
      (round ∈ declinedRounds (signedBy cmds') ∧ e.recoveryTip? = some tip) := by
  rcases mem_append.mp hentry with hmem | hmem
  · exact .inl ⟨entry, mem_append_left _ hmem, h⟩
  obtain rfl := mem_singleton.mp hmem
  obtain ⟨hsigned, hasked⟩ := h
  rw [signedBy_append, declinedRounds_append] at hsigned
  rcases mem_append.mp hsigned with hsigned | hsigned
  · exact .inl ⟨⟨e, cmds⟩, by simp, hsigned, hasked⟩
  · exact .inr ⟨hsigned, hasked⟩

theorem Node.lastRoundTcTip_eq_some {lastRoundTc : Option (TimeoutCertificate T)}
    {blockId : T.BlockId} :
    Node.lastRoundTcTip env lastRoundTc = some blockId ↔
      ∃ tc tip, lastRoundTc = some tc ∧ tc.highExtend = .tip tip ∧
        env.getId tip.blockHeader = blockId := by
  unfold Node.lastRoundTcTip
  rcases lastRoundTc with _ | tc
  · simp
  · rcases h : tc.highExtend with tip | qc <;> simp [h]

namespace DeclineHistory

theorem init : DeclineHistory [] [] n₀ where
  notAhead entry h := by cases h
  rounds := nodup_nil
  le round h := by cases h
  tip entry h := by cases h
  cast entry h := by cases h
  signed v h := by cases h

section

variable (h : DeclineHistory (log ++ [⟨e, cmds⟩]) acts n) {safety : Safety T}

include h

theorem notAhead_snoc :
    ∀ p ∈ proposalsIn (log ++ [⟨e, cmds'⟩]), p.tip.blockHeader.blockRound ≤ p.proposalRound := by
  intro p hp
  refine h.notAhead p ?_
  rw [proposalsIn_snoc] at hp ⊢
  exact hp

omit h in
theorem event (h : DeclineHistory log acts n) (hC : noBlockAhead ctx n e) :
    DeclineHistory (log ++ [⟨e, []⟩]) acts n := by
  have hsigned : signedIn (log ++ [⟨e, []⟩]) = signedIn log := by simp [signedIn]
  have hold : ∀ entry ∈ log ++ [⟨e, []⟩], ∀ {round tip}, Declined entry round tip → entry ∈ log := by
    intro entry hentry round tip hd
    rcases mem_append.mp hentry with hmem | hmem
    · exact hmem
    · obtain rfl := mem_singleton.mp hmem
      cases hd.signed
  refine ⟨fun p hp => ?_, by rw [hsigned]; exact h.rounds,
    by rw [hsigned]; exact h.le, fun entry hentry tip hd => h.tip entry (hold entry hentry hd) tip hd,
    fun entry hentry round tip hd => h.cast entry (hold entry hentry hd) round tip hd,
    by rw [hsigned]; exact h.signed⟩
  rw [proposalsIn_snoc] at hp
  rcases mem_append.mp hp with hp | hp
  · exact h.notAhead p hp
  · exact hC p (by simpa using hp)

/-- A step that casts no vote and declines nothing signs votes only as they were cast. -/
theorem extend (ha : ∀ p, .voted p ∉ a)
    (hne : n'.safety.highestNoEndorse = n.safety.highestNoEndorse)
    (hd : declinedRounds (signedBy (commandsOf a)) = [])
    (hsigned : ∀ v, .vote v ∈ signedBy (commandsOf a) →
      v.round ∈ declinedRounds (signedIn (log ++ [⟨e, cmds⟩])) →
      ∃ p, .voted p ∈ acts ∧ p.proposalRound = v.round ∧ env.getId p.tip.blockHeader = v.id) :
    DeclineHistory (log ++ [⟨e, cmds ++ commandsOf a⟩]) (acts ++ a) n' := by
  have hmem : ∀ {p}, Act.voted p ∈ acts ++ a → Act.voted p ∈ acts := by
    intro p hp
    simpa [ha p] using hp
  have hold : ∀ entry ∈ log ++ [⟨e, cmds ++ commandsOf a⟩], ∀ {round tip},
      Declined entry round tip → ∃ entry' ∈ log ++ [⟨e, cmds⟩], Declined entry' round tip := by
    intro entry hentry round tip hdec
    rcases hdec.snoc hentry with hdec | ⟨hnew, -⟩
    · exact hdec
    · simp [hd] at hnew
  have hrounds : declinedRounds (signedIn (log ++ [⟨e, cmds ++ commandsOf a⟩])) =
      declinedRounds (signedIn (log ++ [⟨e, cmds⟩])) := by
    rw [declinedRounds_snoc, hd, append_nil]
  refine ⟨h.notAhead_snoc, by rw [hrounds]; exact h.rounds, by rw [hrounds, hne]; exact h.le,
    fun entry hentry tip hdec => ?_, fun entry hentry round tip hdec p hp hround => ?_,
    fun v hv hround => ?_⟩
  · rw [hne] at hdec ⊢
    obtain ⟨entry', hentry', hdec⟩ := hold entry hentry hdec
    exact h.tip entry' hentry' tip hdec
  · obtain ⟨entry', hentry', hdec⟩ := hold entry hentry hdec
    exact h.cast entry' hentry' round tip hdec p (hmem hp) hround
  · rw [hrounds] at hround
    have hcast : ∃ p, .voted p ∈ acts ∧ p.proposalRound = v.round ∧
        env.getId p.tip.blockHeader = v.id := by
      rcases mem_signedIn_snoc.mp hv with hv | hv
      · exact h.signed v hv hround
      · exact hsigned v hv hround
    obtain ⟨p, hp, hp'⟩ := hcast
    exact ⟨p, mem_append_left _ hp, hp'⟩

/-- A vote in a declined round is for a proposal with the declined TC. -/
theorem vote {p : ProposalMessage T} {sched : Option (OutgoingVoteStatus T)} (hn : NodeInv n)
    (hround : p.proposalRound = n.getCurrentRound)
    (hvote : n.safety.vote n.getCurrentRound (Node.lastRoundTcTip env p.lastRoundTc) p.tip =
      .ok safety) :
    DeclineHistory (log ++ [⟨e, cmds⟩]) (acts ++ [.voted p])
      { n with safety, scheduledVote := sched } := by
  obtain ⟨hsafe, rfl⟩ := Safety.vote_eq_ok.mp hvote
  obtain ⟨-, htc⟩ := Safety.isSafeToVote_eq_true.mp hsafe
  refine ⟨h.notAhead, h.rounds, h.le, h.tip, fun entry hentry round tip hdec p' hp' hr => ?_,
    fun v hv hmem => ?_⟩
  · rcases mem_append.mp hp' with hp' | hp'
    · exact h.cast entry hentry round tip hdec p' hp' hr
    obtain rfl : p' = p := by simpa using hp'
    -- the declined round is the current one, hence the last one declined
    have hle := h.le round (hdec.mem hentry)
    have hcur : n.getCurrentRound = n.safety.highestNoEndorse.round :=
      le_antisymm ((hround.symm.trans hr).le.trans hle) hn.noEndorse_le
    rw [htc hcur, h.tip entry hentry tip (by rwa [← hcur, ← hround, hr])]
  · obtain ⟨p', hp', hp''⟩ := h.signed v hv hmem
    exact ⟨p', mem_append_left _ hp', hp''⟩

/-- Declining opens a new last round, in which there is no vote yet. -/
theorem decline {author : NodeId} {m : RoundRecoveryMessage T} {tip : ConsensusTip T}
    {c : ConsensusCommand env} {ne : NoEndorsement}
    (hv : VoteHistory start (log ++ [⟨e, cmds⟩]) acts n)
    (hm : e = .message author (.roundRecovery m)) (htip : m.tc.highExtend = .tip tip)
    (hs : n.safety.noEndorse m.round (env.getId tip.blockHeader) = .ok safety)
    (hc : c.signed = [.noEndorsement ne]) (hround : ne.round = m.round) :
    DeclineHistory (log ++ [⟨e, cmds ++ [c]⟩]) (acts ++ [.cmd c]) { n with safety } := by
  obtain ⟨⟨hne, hvote⟩, rfl⟩ := Safety.noEndorse_eq_ok.mp hs
  have hrounds : declinedRounds (signedIn (log ++ [⟨e, cmds ++ [c]⟩])) =
      declinedRounds (signedIn (log ++ [⟨e, cmds⟩])) ++ [m.round] := by
    rw [declinedRounds_snoc, signedBy_singleton, hc, ← hround]
    rfl
  have hnew : m.round ∉ declinedRounds (signedIn (log ++ [⟨e, cmds⟩])) :=
    fun hmem => absurd (h.le _ hmem) (not_le.mpr hne)
  have hsnoc : ∀ entry ∈ log ++ [⟨e, cmds ++ [c]⟩], ∀ {round tip'}, Declined entry round tip' →
      (∃ entry' ∈ log ++ [⟨e, cmds⟩], Declined entry' round tip') ∨
        (round = m.round ∧ tip' = tip) := by
    intro entry hentry round tip' hdec
    rcases hdec.snoc hentry with hdec | ⟨hr, htip'⟩
    · exact .inl hdec
    rw [signedBy_singleton, hc] at hr
    obtain ⟨ne', hne', rfl⟩ := mem_declinedRounds.mp hr
    obtain rfl : ne' = ne := by simpa using hne'
    refine .inr ⟨hround, ?_⟩
    simpa [hm, Event.recoveryTip?, htip, eq_comm] using htip'
  refine ⟨h.notAhead_snoc, ?_, ?_, fun entry hentry tip' hdec => ?_,
    fun entry hentry round tip' hdec p hp hr => ?_, fun v hsigned hmem => ?_⟩
  · rw [hrounds]
    exact nodup_append.mpr ⟨h.rounds, nodup_singleton _, fun r hr r' hr' hrr' =>
      hnew (by rw [← mem_singleton.mp hr', ← hrr']; exact hr)⟩
  · intro round hmem
    rw [hrounds] at hmem
    rcases mem_append.mp hmem with hmem | hmem
    · exact (h.le round hmem).trans hne.le
    · exact (mem_singleton.mp hmem).le
  · rcases hsnoc entry hentry hdec with ⟨entry', hentry', hdec⟩ | ⟨-, rfl⟩
    · exact absurd (hdec.mem hentry') hnew
    · rfl
  · have hp : .voted p ∈ acts := by simpa using hp
    rcases hsnoc entry hentry hdec with ⟨entry', hentry', hdec⟩ | ⟨rfl, -⟩
    · exact h.cast entry' hentry' round tip' hdec p hp hr
    · exact absurd (hv.cast p hp).2 (by omega)
  · have hsigned : .vote v ∈ signedIn (log ++ [⟨e, cmds⟩]) := by
      rcases mem_signedIn_snoc.mp hsigned with hsigned | hsigned
      · exact hsigned
      · simp [hc] at hsigned
    rw [hrounds] at hmem
    rcases mem_append.mp hmem with hmem | hmem
    · obtain ⟨p, hp, hp'⟩ := h.signed v hsigned hmem
      exact ⟨p, mem_append_left _ hp, hp'⟩
    · have := (hv.signed v hsigned).1
      rw [mem_singleton] at hmem
      omega

/-- A vote that a timeout repeats in a declined round was cast in that round. -/
theorem timeout_vote {v : Vote T} (hv : VoteHistory start (log ++ [⟨e, cmds⟩]) acts n)
    (hn : NodeInv n) (hvote : (n.ownTimeout ctx).vote? env = some v)
    (hmem : v.round ∈ declinedRounds (signedIn (log ++ [⟨e, cmds⟩]))) :
    ∃ p, .voted p ∈ acts ∧ p.proposalRound = v.round ∧ env.getId p.tip.blockHeader = v.id := by
  obtain ⟨tip, htip, hsafe, rfl⟩ := Node.vote?_ownTimeout.mp hvote
  obtain ⟨p, rfl, hp⟩ := hv.tip tip htip
  have hcur : n.safety.highestNoEndorse.round = n.getCurrentRound :=
    le_antisymm hn.noEndorse_le (h.le _ hmem)
  have hblock : p.tip.blockHeader.blockRound = n.getCurrentRound := by
    simpa [Safety.safeToIncludeVote, hcur, htip] using hsafe
  have hahead := h.notAhead p (hv.delivered p hp.voted)
  exact ⟨p, hp.voted, le_antisymm (hp.le.trans hn.vote_le) (hblock.symm.le.trans hahead), rfl⟩

theorem step (hv : VoteHistory start (log ++ [⟨e, cmds⟩]) acts n) (hn : NodeInv n)
    (hs : Step ctx e n a n') :
    DeclineHistory (log ++ [⟨e, cmds ++ commandsOf a⟩]) (acts ++ a) n' := by
  cases hs with
  | quiet hq hc =>
    have hsigned := signedBy_quiet hc
    exact h.extend (by simp) hq.safety.highestNoEndorse (by simp [hsigned, declinedRounds])
      (by simp [hsigned])
  | certificate _ hc =>
    rcases certificate_spec ctx hc with ⟨-, hn', hcs⟩ | ⟨-, epoch, -, hn', hcs⟩
    · exact h.extend (by simp [pacemakerActs]) (by rw [hn']) (by simp [hcs, declinedRounds])
        (by simp [hcs])
    · exact h.extend (by simp [pacemakerActs]) (by rw [hn']; rfl)
        (by simp [hcs, signedBy, ConsensusCommand.signed, declinedRounds])
        (by simp [hcs, signedBy, ConsensusCommand.signed])
  | timeout hto =>
    obtain ⟨hn', hcs⟩ := timeout_spec ctx hto
    refine h.extend (by simp [pacemakerActs]) (by rw [hn']) ?_ fun v hvote hmem => ?_
    · rw [hcs]
      cases hvote : (n.ownTimeout ctx).vote? env <;>
        simp [signedBy, ConsensusCommand.signed, declinedRounds, hvote]
    · rw [hcs] at hvote
      exact h.timeout_vote hv hn (by simpa [signedBy, ConsensusCommand.signed] using hvote) hmem
  | vote _ hround hvote =>
    rw [commandsOf_voted, append_nil]
    exact h.vote hn hround hvote
  | @send v _ hsched hc =>
    refine h.extend (by simp) rfl ?_ fun v' hv' _ => ?_
    · rw [commandsOf_map_cmd]
      refine filterMap_eq_nil_iff.mpr fun msg hmsg => ?_
      rw [eq_vote_of_mem_signedBy_send hc hmsg]
    · rw [commandsOf_map_cmd] at hv'
      obtain rfl : v' = v := by simpa using eq_vote_of_mem_signedBy_send hc hv'
      exact hv.scheduled v' hsched
  | noEndorse hm htip _ hs hround _ =>
    exact h.decline hv hm htip hs rfl hround
  | commit _ _ =>
    exact h.extend (by simp) rfl (by simp [ConsensusCommand.signed, declinedRounds])
      (by simp [ConsensusCommand.signed])
  | store _ _ _ => exact h.extend (by simp) rfl rfl (by simp)
  | drop _ => exact h.extend (by simp) rfl rfl (by simp)
  | timerFired => exact h.extend (by simp) rfl rfl (by simp)

end

end DeclineHistory

theorem Run.declineHistory {em : EpochManager} {root : RootInfo T} {cert : RoundCertificate T}
    (hnew : Node.new env em root cert = .ok n₀) (hrun : Run id noBlockAhead n₀ log n) :
    ∃ acts, VoteHistory n₀.getCurrentRound log acts n ∧ DeclineHistory log acts n := by
  have hn := Node.inv_new hnew
  obtain ⟨epoch, -, rfl⟩ := Node.new_ok hnew
  exact hrun.history (I := fun log acts n => VoteHistory _ log acts n ∧ DeclineHistory log acts n)
    hn ⟨VoteHistory.init le_rfl rfl rfl, .init⟩ (fun _ hC h => ⟨h.1.event, h.2.event hC⟩)
    fun _ _ hn h hs => ⟨h.1.step hn hs, h.2.step h.1 hn hs⟩

/-- **Declining excludes voting.** In every run without proposals of blocks of later rounds,
a node that declined to endorse the tip `x` in a round signs votes for that round only for
a proposal of the round that carries a TC with tip `x`, and it declines once per round. -/
theorem Run.decline_excludes_vote {em : EpochManager} {root : RootInfo T}
    {cert : RoundCertificate T} (hnew : Node.new env em root cert = .ok n₀)
    (hrun : Run id noBlockAhead n₀ log n) :
    (∀ entry ∈ log, ∀ round x, Declined entry round x →
      ∀ v, .vote v ∈ signedIn log → v.round = round →
        ∃ p ∈ proposalsIn log, p.proposalRound = round ∧ env.getId p.tip.blockHeader = v.id ∧
          ∃ tc tip, p.lastRoundTc = some tc ∧ tc.highExtend = .tip tip ∧
            env.getId tip.blockHeader = env.getId x.blockHeader) ∧
      (declinedRounds (signedIn log)).Nodup := by
  obtain ⟨acts, hv, hd⟩ := hrun.declineHistory hnew
  refine ⟨fun entry hentry round x hx v hsigned hround => ?_, hd.rounds⟩
  subst hround
  obtain ⟨p, hp, hround, hid⟩ := hd.signed v hsigned (hx.mem hentry)
  refine ⟨p, hv.delivered p hp, hround, hid, ?_⟩
  exact Node.lastRoundTcTip_eq_some.mp (hd.cast entry hentry v.round x hx p hp hround)

namespace Ideal

/-- A certificate of the second round in which only node 0 reports its block. -/
def tcTwo : TimeoutCertificate types := tc 2 [([0], 0, 2), ([2, 3], 0, 0)] (.tip tipTwo)

/-- Node 1 has not seen the block and declines to endorse it. Then it is proposed again,
and node 1 votes for it. -/
def declineEvents : List (Ctx soleLeader × Event soleLeader) :=
  [(member 1 10, .message 0 (.roundRecovery { round := 3, epoch := 1, tc := tcTwo })),
    (member 1 10, .message 0 (.proposal (proposal 3 tipTwo (some tcTwo))))]

def declineRun : List (Entry soleLeader) × Node soleLeader :=
  (execute (fun _ _ e => e.proposal?.all fun p =>
    decide (p.tip.blockHeader.blockRound ≤ p.proposalRound)) declineEvents (genesisNode _)).get
    (by decide +kernel)

theorem run_declineRun : Run 1 noBlockAhead (genesisNode _) declineRun.1 declineRun.2 :=
  Run.of_get (fun _ _ e h p hp => by
    rw [Option.mem_def.mp hp] at h
    simpa using h) (by simp [declineEvents, member]) _

/-- A block of the fourth round, in which nobody reports a tip. -/
def tipFour : ConsensusTip types :=
  tip 0 4 genesisQc 1 1 (some (noTip (tc 3 [([0, 2, 3], 0, 0)] (.qc genesisQc))))

/-- Node 1 is late. It votes in the second round for a block of the fourth, declines the
block of the second round in the fourth, and then times out. -/
def aheadEvents : List (Ctx soleLeader × Event soleLeader) :=
  [(member 1 10, .message 0 (.proposal (proposal 2 tipFour (some tcOne)))),
    (member 1 10, .message 0 (.roundRecovery
      { round := 4, epoch := 1, tc := tc 3 [([0], 0, 2), ([2, 3], 0, 0)] (.tip tipTwo) })),
    (member 1 10, .timeoutExpiry 4)]

def aheadRun : List (Entry soleLeader) × Node soleLeader :=
  (execute (fun _ _ _ => true) aheadEvents (genesisNode _)).get (by decide +kernel)

end Ideal

open MonadBft.Ideal

theorem Run.decline_excludes_vote_declineRun :
    (∃ entry ∈ declineRun.1, Declined entry 3 tipTwo) ∧
    .vote { id := headerId tipTwo.blockHeader, round := 3, epoch := 1 } ∈
      signedIn declineRun.1 ∧
    (∀ entry ∈ declineRun.1, ∀ round x, Declined entry round x →
      ∀ v, .vote v ∈ signedIn declineRun.1 → v.round = round →
        ∃ p ∈ proposalsIn declineRun.1, p.proposalRound = round ∧
          headerId p.tip.blockHeader = v.id ∧
          ∃ tc tip, p.lastRoundTc = some tc ∧ tc.highExtend = .tip tip ∧
            headerId tip.blockHeader = headerId x.blockHeader) ∧
    (declinedRounds (signedIn declineRun.1)).Nodup :=
  ⟨by decide +kernel, by decide +kernel, Run.decline_excludes_vote new_genesisNode run_declineRun⟩

/-- Without the condition a node may decline in a round and then sign a vote for the round
in a timeout, although it has seen no proposal of that round. -/
theorem Run.votes_after_declining :
    Node.new soleLeader epochs root (.qc genesisQc) = .ok (genesisNode _) ∧
    Run 1 anyEvent (genesisNode _) aheadRun.1 aheadRun.2 ∧
    (∃ entry ∈ aheadRun.1, Declined entry 4 tipTwo) ∧
    .vote { id := headerId tipFour.blockHeader, round := 4, epoch := 1 } ∈
      signedIn aheadRun.1 ∧
    ∀ p ∈ proposalsIn aheadRun.1, p.proposalRound ≠ 4 :=
  ⟨new_genesisNode, Run.of_get (fun _ _ _ _ => trivial) (by simp [aheadEvents, member]) _,
    by decide +kernel, by decide +kernel, by decide +kernel⟩

end MonadBft
