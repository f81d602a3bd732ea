import MonadBft.Consensus
import MonadBft.TreeIndex

/-!
# What a handler may do

`Step` lists the elementary steps handlers are made of: entering a round by a
certificate, timing out, storing and dropping timeouts, casting a vote, sending it,
declining to endorse, committing a block, and everything else, which touches none of the
state these depend on (`Quiet`). A step is labelled by the commands it produces, and a
vote that is cast by its proposal (`Act`).

Every handler follows the steps (`MonadBft.Handlers`), so an invariant is proved once per
step. `NodeInv` holds in every state of a node: it votes, declines and times out in rounds
up to the current one, its high tip is above every QC it knows, and the timeouts it
collects are of the current round (`Step.inv`). `QcInv` says that its QCs are from earlier
rounds, if the certificates it is given are (`Step.qcInv`).
-/

namespace MonadBft

open List Pacemaker ConsensusCommand

variable {T : Types} {env : Env T} {n n' : Node env} {ctx : Ctx env} {e : Event env}
  {r : Pacemaker T × Safety T × List (PacemakerCommand T)} {cert : RoundCertificate T}

/-! ## What commands carry -/

/-- The vote for its tip that a timeout carries. -/
def TimeoutMessage.vote? (env : Env T) (m : TimeoutMessage T) : Option (Vote T) :=
  match m.highExtend with
  | .tip tip (some _) =>
    some { id := env.getId tip.blockHeader, round := m.tminfo.round, epoch := m.tminfo.epoch }
  | .tip _ none => none
  | .qc _ => none

namespace ConsensusCommand

/-- What the node signs, as a validator, in a command. -/
def signed : ConsensusCommand env → List (SigningMessage T)
  | publish _ (.vote m) => [.vote m.vote]
  | publish _ (.timeout m) => .timeout m.tminfo :: (m.vote? env).toList.map .vote
  | publish _ (.noEndorsement m) => [.noEndorsement m.msg]
  | _ => []

/-- The certificate by which the node enters a round. -/
def entered? : ConsensusCommand env → Option (RoundCertificate T)
  | publishToFullNodes _ _ (.advanceRound m) => some m.lastRoundCertificate
  | _ => none

def timeout? : ConsensusCommand env → Option (TimeoutMessage T)
  | publish _ (.timeout m) => some m
  | _ => none

def finalized? : ConsensusCommand env → Option (ConsensusFullBlock env)
  | commitBlocks (.finalized block) => some block
  | _ => none

/-- A command that signs nothing, enters no round and commits nothing. -/
def IsQuiet (c : ConsensusCommand env) : Prop :=
  c.signed = [] ∧ c.entered? = none ∧ c.finalized? = none

/-- A proposal is the one the node plans for its round: the tip of the last TC with the body
of its block, or a fresh block. -/
def Planned (n : Node env) : ConsensusCommand env → Prop
  | publish _ (.proposal p) => ∃ (tc : TimeoutCertificate T) (block : ConsensusFullBlock env),
      n.proposalPlan n.getCurrentRound = .repropose p.tip tc ∧
      p.proposalRound = n.getCurrentRound ∧ p.lastRoundTc = some tc ∧
      block.getId = env.getId p.tip.blockHeader ∧ p.blockBody = block.body
  | createProposal c =>
      n.proposalPlan n.getCurrentRound = .fresh c.highQc c.freshProposalCertificate c.lastRoundTc ∧
      c.round = n.getCurrentRound
  | _ => True

end ConsensusCommand

variable (env) in
/-- What a node does: it produces a command, or it casts a vote for a proposal. -/
inductive Act where
  | cmd (c : ConsensusCommand env)
  | voted (p : ProposalMessage T)

def Act.cmd? : Act env → Option (ConsensusCommand env)
  | cmd c => some c
  | voted _ => none

def Event.proposal? : Event env → Option (ProposalMessage T)
  | .message _ (.proposal p) => some p
  | _ => none

/-- The certificates in an event that the node processes. -/
def Event.certificates : Event env → List (RoundCertificate T)
  | .message _ (.proposal p) => .qc p.tip.blockHeader.qc :: p.lastRoundTc.toList.map .tc
  | .message _ (.timeout m) => .qc m.highExtend.getQc :: m.lastRoundCertificate.toList
  | .message _ (.roundRecovery m) => [.tc m.tc]
  | .message _ (.advanceRound m) => [m.lastRoundCertificate]
  | _ => []

/-- The headers of the blocks in an event. -/
def Event.headers : Event env → List (ConsensusBlockHeader T)
  | .message _ (.proposal p) => [p.tip.blockHeader]
  | .blockSync _ fullBlocks => fullBlocks.map ConsensusFullBlock.header
  | _ => []

/-- The round of the vote or the timeout in an event. -/
def Event.collected? : Event env → Option ℕ
  | .message _ (.vote m) => some m.vote.round
  | .message _ (.timeout m) => some m.tminfo.round
  | _ => none

/-! ## Steps -/

/-- Where a certificate comes from: the event, votes the node collected, or timeouts it
collected, the last of them in the event. -/
inductive Origin (ctx : Ctx env) (e : Event env) (p : Pacemaker T) : RoundCertificate T → Prop
  | carried {cert : RoundCertificate T} : cert ∈ e.certificates → Origin ctx e p cert
  | votes {qc : QuorumCertificate T} : e.collected? = some qc.getRound → Origin ctx e p (.qc qc)
  | timeouts {author : NodeId} {m : TimeoutMessage T} {validators : ValidatorSet}
      {mapping : ValidatorMapping} {tc : TimeoutCertificate T} :
      e = .message author (.timeout m) → m.tminfo.round = p.getCurrentRound →
      ctx.valEpochMap m.tminfo.epoch = some (validators, mapping) →
      TimeoutCertificate.new env m.tminfo.epoch m.tminfo.round p.pendingTimeouts mapping = .ok tc →
      validators.hasSuperMajorityVotes p.pendingSenders = .ok true → Origin ctx e p (.tc tc)

/-- The voting rules see no difference. -/
structure Safety.SameVotes (s s' : Safety T) : Prop where
  maybeHighTip : s'.maybeHighTip = s.maybeHighTip
  highCertificateQcRound : s'.highCertificateQcRound = s.highCertificateQcRound
  highestVote : s'.highestVote = s.highestVote
  highestNoEndorse : s'.highestNoEndorse = s.highestNoEndorse

/-- The headers of the blocks a node has in its tree. -/
def Node.headers (n : Node env) : List (ConsensusBlockHeader T) := n.pendingBlockTree.headers

/-- Nothing changed that rounds, votes, timeouts and epochs depend on. New blocks are from
the event. -/
structure Quiet (e : Event env) (n n' : Node env) : Prop where
  safety : n.safety.SameVotes n'.safety
  pacemaker : n'.pacemaker = n.pacemaker
  scheduledVote : n'.scheduledVote = n.scheduledVote
  epochManager : n'.epochManager = n.epochManager
  keyed : n.noEndorsementState.Keyed → n'.noEndorsementState.Keyed
  headers : ∀ h ∈ n'.headers, h ∈ n.headers ∨ h ∈ e.headers

namespace Node

/-- The vote for a proposal in the current round. -/
def voteFor (n : Node env) (p : ProposalMessage T) : Vote T :=
  { id := env.getId p.tip.blockHeader, round := n.getCurrentRound, epoch := n.getCurrentEpoch }

/-- The state after a pacemaker operation. -/
def withPacemaker (n : Node env) (r : Pacemaker T × Safety T × List (PacemakerCommand T)) :
    Node env :=
  { n with pacemaker := r.1, safety := r.2.1 }

end Node

def pacemakerActs (ctx : Ctx env) (cmds : List (PacemakerCommand T)) : List (Act env) :=
  (cmds.flatMap (fromPacemakerCommand ctx.nodeid)).map .cmd

@[simp] theorem pacemakerActs_append (ctx : Ctx env) (cmds cmds' : List (PacemakerCommand T)) :
    pacemakerActs ctx (cmds ++ cmds') = pacemakerActs ctx cmds ++ pacemakerActs ctx cmds' := by
  simp [pacemakerActs]

/-- The elementary steps of a node that handles `e`. -/
inductive Step (ctx : Ctx env) (e : Event env) : Node env → List (Act env) → Node env → Prop
  | quiet {n n' : Node env} {cmds : List (ConsensusCommand env)} :
      Quiet e n n' → (∀ c ∈ cmds, c.IsQuiet ∧ c.Planned n) → Step ctx e n (cmds.map .cmd) n'
  /-- A block of the tree is committed, which may schedule an epoch. -/
  | commit {n : Node env} {block : ConsensusFullBlock env} {epochManager : EpochManager} :
      block.header ∈ n.headers →
      n.epochManager.scheduleEpochStart block.getSeqNum block.getBlockRound = .ok epochManager →
      Step ctx e n [.cmd (.commitBlocks (.finalized block))] { n with epochManager }
  | certificate {n : Node env} {cert : RoundCertificate T}
      {r : Pacemaker T × Safety T × List (PacemakerCommand T)} :
      Origin ctx e n.pacemaker cert →
      n.pacemaker.processCertificate env n.safety n.epochManager cert = .ok r →
      Step ctx e n (pacemakerActs ctx r.2.2) (n.withPacemaker r)
  | timeout {n : Node env} {r : Pacemaker T × Safety T × List (PacemakerCommand T)} :
      n.pacemaker.processLocalTimeout env n.safety = .ok r →
      Step ctx e n (pacemakerActs ctx r.2.2) (n.withPacemaker r)
  /-- A timeout of the current round is stored. -/
  | store {n : Node env} {author : NodeId} {m : TimeoutMessage T} :
      e = .message author (.timeout m) → m.tminfo.round = n.getCurrentRound →
      m.highExtend.getQc.getRound < n.getCurrentRound →
      Step ctx e n [] { n with pacemaker := n.pacemaker.insertTimeout author m }
  | drop {n : Node env} {pacemaker : Pacemaker T} :
      Shrunk n.pacemaker pacemaker → Step ctx e n [] { n with pacemaker }
  /-- A vote is cast in the current round. -/
  | vote {n : Node env} {author : NodeId} {p : ProposalMessage T} {safety : Safety T} :
      e = .message author (.proposal p) → p.proposalRound = n.getCurrentRound →
      n.safety.vote n.getCurrentRound (Node.lastRoundTcTip env p.lastRoundTc) p.tip = .ok safety →
      Step ctx e n [.voted p] { n with safety, scheduledVote := some (.voteReady (n.voteFor p)) }
  /-- The vote that was cast is sent. -/
  | send {n : Node env} {v : Vote T} {cmds : List (ConsensusCommand env)} :
      n.scheduledVote = some (.voteReady v) →
      (∀ c ∈ cmds, c.IsQuiet ∧ c.Planned n ∨ ∃ target,
        c = .publish target (.vote { vote := v, sig := env.sign ctx.nodeid (.vote v) })) →
      Step ctx e n (cmds.map .cmd) { n with scheduledVote := none }
  | timerFired {n : Node env} : Step ctx e n [] { n with scheduledVote := some .timerFired }
  /-- The tip of a TC is declined. -/
  | noEndorse {n : Node env} {author : NodeId} {m : RoundRecoveryMessage T} {tip : ConsensusTip T}
      {msg : NoEndorsement} {safety : Safety T} :
      e = .message author (.roundRecovery m) → m.tc.highExtend = .tip tip →
      m.round = n.getCurrentRound →
      n.safety.noEndorse m.round (env.getId tip.blockHeader) = .ok safety →
      msg.round = m.round → msg.tipQcRound = tip.blockHeader.qc.getRound →
      Step ctx e n
        [.cmd (.publish (.pointToPoint author)
          (.noEndorsement { msg, signature := env.sign ctx.nodeid (.noEndorsement msg) }))]
        { n with safety }

/-! ## The invariant of a node -/

/-- What the proofs use of a valid event. -/
structure Event.WellFormed (e : Event env) : Prop where
  certificate : ∀ cert ∈ e.certificates, cert.getQc.getRound ≤ cert.round
  proposal : ∀ author p, e = .message author (.proposal p) →
    p.tip.blockHeader.qc.getRound < p.proposalRound

theorem Event.Valid.wellFormed (h : e.Valid ctx n) : e.WellFormed where
  certificate cert hcert := by
    rcases e with ⟨author, m⟩ | _ | _ | _ <;> try (simp [Event.certificates] at hcert; done)
    obtain ⟨-, h⟩ := h
    cases m with
    | proposal p =>
      rcases mem_cons.mp hcert with rfl | hcert
      · exact le_rfl
      · obtain ⟨tc, htc, rfl⟩ := mem_map.mp hcert
        exact qcRound_le_of_verifyRoundCertificate
          ((ProposalMessage.validate_ok h).2.2 tc (by simpa using htc))
    | timeout m =>
      rcases mem_cons.mp hcert with rfl | hcert
      · exact le_rfl
      · exact qcRound_le_of_verifyRoundCertificate
          ((TimeoutMessage.validate_ok h).2.2.1 cert (by simpa using hcert))
    | roundRecovery m =>
      obtain rfl := mem_singleton.mp hcert
      exact qcRound_le_of_verifyRoundCertificate (RoundRecoveryMessage.validate_ok h).2
    | advanceRound m =>
      obtain rfl := mem_singleton.mp hcert
      exact qcRound_le_of_verifyRoundCertificate h
    | vote m => simp [Event.certificates] at hcert
    | noEndorsement m => simp [Event.certificates] at hcert
  proposal author p he := by
    subst he
    exact ProposalMessage.qcRound_lt h.2

/-- What holds in every state of a node. -/
structure NodeInv (n : Node env) : Prop where
  vote_le : n.safety.highestVote ≤ n.getCurrentRound
  scheduled : ∀ v, n.scheduledVote = some (.voteReady v) → v.round ≤ n.safety.highestVote
  noEndorse_le : n.safety.highestNoEndorse.round ≤ n.getCurrentRound
  tip : ∀ tip, n.safety.maybeHighTip = some tip →
    n.safety.highCertificateQcRound < tip.blockHeader.blockRound
  pending : ∀ t ∈ n.pacemaker.pendingTimeouts, t.2.tminfo.round = n.getCurrentRound
  senders : n.pacemaker.pendingSenders.Nodup
  keyed : n.noEndorsementState.Keyed

theorem NodeInv.certificate_step (hn : NodeInv n)
    (h : n.pacemaker.processCertificate env n.safety n.epochManager cert = .ok r) :
    NodeInv (n.withPacemaker r) := by
  obtain ⟨p, s, cmds⟩ := r
  rcases processCertificate_ok h with ⟨-, rfl, rfl, -⟩ | ⟨hlt, epoch, -, rfl, rfl, -⟩
  · exact { hn with }
  have hround : n.getCurrentRound ≤ cert.round + 1 := Nat.succ_le_succ hlt.le
  refine ⟨hn.vote_le.trans hround, hn.scheduled, hn.noEndorse_le.trans hround, ?_, ?_, ?_, hn.keyed⟩
  · intro tip htip
    exact (Safety.maybeHighTip_processCertificate.mp htip).2
  · intro t ht
    cases ht
  · exact nodup_nil

theorem NodeInv.quiet_step (hn : NodeInv n) (h : Quiet e n n') : NodeInv n' := by
  obtain ⟨⟨htip, hqc, hvote, hne⟩, hp, hsched, -, hkeyed, -⟩ := h
  have hround : n'.getCurrentRound = n.getCurrentRound := by rw [Node.getCurrentRound, hp]
  refine ⟨?_, ?_, ?_, ?_, ?_, ?_, hkeyed hn.keyed⟩
  · rw [hvote, hround]
    exact hn.vote_le
  · rw [hsched, hvote]
    exact hn.scheduled
  · rw [hne, hround]
    exact hn.noEndorse_le
  · rw [htip, hqc]
    exact hn.tip
  · rw [hp, hround]
    exact hn.pending
  · rw [hp]
    exact hn.senders

variable {acts : List (Act env)} {c : ConsensusCommand env} {cmds : List (ConsensusCommand env)}
  {v : Vote T}

theorem Step.inv (hn : NodeInv n) (h : Step ctx e n acts n') : NodeInv n' := by
  cases h with
  | quiet hq _ => exact hn.quiet_step hq
  | commit _ _ => exact { hn with }
  | certificate _ hc => exact hn.certificate_step hc
  | timeout hto =>
    obtain ⟨hp, hloc⟩ := processLocalTimeout_ok hto
    obtain ⟨-, hs, -⟩ := localTimeoutRound_ok hloc
    rw [Node.withPacemaker, hp, hs]
    exact { hn with
      vote_le := le_rfl, scheduled := fun v hv => (hn.scheduled v hv).trans hn.vote_le }
  | store _ hround _ =>
    refine ⟨hn.1, hn.2, hn.3, hn.4, fun t ht => ?_, Assoc.nodup_insert hn.senders, hn.7⟩
    rcases mem_insertTimeout.mp ht with rfl | ⟨ht, -⟩
    · exact hround
    · exact hn.pending t ht
  | @drop pacemaker hshrunk =>
    have hround : pacemaker.getCurrentRound = n.getCurrentRound := by
      simp only [getCurrentRound, hshrunk.highCertificate]
    exact ⟨hn.vote_le.trans_eq hround.symm, hn.2, hn.noEndorse_le.trans_eq hround.symm, hn.4,
      fun t ht => (hn.pending t (hshrunk.pending.subset ht)).trans hround.symm,
      hn.senders.sublist (hshrunk.pending.map _), hn.7⟩
  | vote _ _ hvote =>
    obtain ⟨-, rfl⟩ := Safety.vote_eq_ok.mp hvote
    refine ⟨le_rfl, ?_, hn.3, ?_, hn.5, hn.6, hn.7⟩
    · rintro v ⟨⟩
      exact le_rfl
    intro tip htip
    split at htip
    next hlt =>
      cases htip
      exact hlt
    · cases htip
  | send _ _ => exact ⟨hn.1, by simp, hn.3, hn.4, hn.5, hn.6, hn.7⟩
  | timerFired => exact ⟨hn.1, by simp, hn.3, hn.4, hn.5, hn.6, hn.7⟩
  | noEndorse _ _ hround hne _ _ =>
    obtain ⟨-, rfl⟩ := Safety.noEndorse_eq_ok.mp hne
    exact ⟨hn.1, hn.2, hround.le, hn.4, hn.5, hn.6, hn.7⟩

/-! ## QC rounds lie in the past -/

/-- The QCs a node works with are from rounds before the current one. -/
structure QcInv (n : Node env) : Prop where
  certificate : n.pacemaker.highCertificate.getQc.getRound ≤ n.pacemaker.highCertificate.round
  qcRound_lt : n.safety.highCertificateQcRound < n.getCurrentRound
  tip : ∀ tip, n.safety.maybeHighTip = some tip → tip.blockHeader.qc.getRound < n.getCurrentRound
  pending : ∀ t ∈ n.pacemaker.pendingTimeouts, t.2.highExtend.getQc.getRound < n.getCurrentRound

theorem Origin.qcRound_le (ho : Origin ctx e n.pacemaker cert) (he : e.WellFormed) (hn : QcInv n) :
    cert.getQc.getRound ≤ cert.round := by
  cases ho with
  | carried hcert => exact he.certificate cert hcert
  | votes _ => exact le_rfl
  | timeouts _ hround _ hnew _ =>
    obtain ⟨-, hr, hext, -⟩ := TimeoutCertificate.new_eq_ok.mp hnew
    rw [RoundCertificate.getQc, RoundCertificate.round, hext, hr, hround]
    exact (qcRound_highestExtend_lt (Nat.succ_pos _) hn.pending).le

theorem Step.qcInv (he : e.WellFormed) (hn : QcInv n) (h : Step ctx e n acts n') : QcInv n' := by
  cases h with
  | quiet hq _ =>
    obtain ⟨⟨htip, hqc, -, -⟩, hp, -⟩ := hq
    have hround : n'.getCurrentRound = n.getCurrentRound := by rw [Node.getCurrentRound, hp]
    refine ⟨by rw [hp]; exact hn.1, ?_, ?_, ?_⟩
    · rw [hqc, hround]
      exact hn.2
    · rw [htip, hround]
      exact hn.3
    · rw [hp, hround]
      exact hn.4
  | @certificate cert r ho hc =>
    obtain ⟨p, s, cmds⟩ := r
    have hle := ho.qcRound_le he hn
    rcases processCertificate_ok hc with ⟨-, rfl, rfl, -⟩ | ⟨hlt, epoch, -, rfl, rfl, -⟩
    · exact hn
    have hround : n.getCurrentRound ≤ cert.round := hlt
    refine ⟨hle, ?_, fun tip htip => ?_, fun t ht => by cases ht⟩
    · exact max_lt (hn.qcRound_lt.trans_le (hround.trans (Nat.le_succ _))) (Nat.lt_succ_of_le hle)
    · exact (hn.tip tip (Safety.maybeHighTip_processCertificate.mp htip).1).trans_le
        (hround.trans (Nat.le_succ _))
  | timeout hto =>
    obtain ⟨hp, hloc⟩ := processLocalTimeout_ok hto
    obtain ⟨-, hs, -⟩ := localTimeoutRound_ok hloc
    rw [Node.withPacemaker, hp, hs]
    exact ⟨hn.1, hn.2, hn.3, hn.4⟩
  | store _ _ hqc =>
    refine ⟨hn.1, hn.2, hn.3, fun t ht => ?_⟩
    rcases mem_insertTimeout.mp ht with rfl | ⟨ht, -⟩
    · exact hqc
    · exact hn.pending t ht
  | @drop pacemaker hshrunk =>
    have hround : pacemaker.getCurrentRound = n.getCurrentRound := by
      simp only [getCurrentRound, hshrunk.highCertificate]
    exact ⟨by rw [hshrunk.highCertificate]; exact hn.1, hn.qcRound_lt.trans_eq hround.symm,
      fun tip htip => (hn.tip tip htip).trans_eq hround.symm,
      fun t ht => (hn.pending t (hshrunk.pending.subset ht)).trans_eq hround.symm⟩
  | @vote author p _ hprop hround hvote =>
    obtain ⟨-, rfl⟩ := Safety.vote_eq_ok.mp hvote
    refine ⟨hn.1, hn.2, fun tip htip => ?_, hn.4⟩
    split at htip
    · cases htip
      exact (he.proposal author p hprop).trans_eq hround
    · cases htip
  | noEndorse _ _ _ hne _ _ =>
    obtain ⟨-, rfl⟩ := Safety.noEndorse_eq_ok.mp hne
    exact ⟨hn.1, hn.2, hn.3, hn.4⟩
  | commit _ _ => exact ⟨hn.1, hn.2, hn.3, hn.4⟩
  | send _ _ => exact ⟨hn.1, hn.2, hn.3, hn.4⟩
  | timerFired => exact ⟨hn.1, hn.2, hn.3, hn.4⟩

theorem Step.round_le (h : Step ctx e n acts n') : n.getCurrentRound ≤ n'.getCurrentRound := by
  cases h with
  | quiet hq _ => rw [Node.getCurrentRound, Node.getCurrentRound, hq.pacemaker]
  | certificate ho hc =>
    rcases processCertificate_ok hc with ⟨-, hp, -⟩ | ⟨hlt, epoch, -, hp, -⟩
    · rw [Node.getCurrentRound, Node.getCurrentRound, Node.withPacemaker, hp]
    · rw [Node.getCurrentRound, Node.getCurrentRound, Node.withPacemaker, hp]
      exact Nat.succ_le_succ hlt.le
  | timeout hto =>
    rw [Node.withPacemaker, (processLocalTimeout_ok hto).1]
    exact le_rfl
  | drop hshrunk =>
    simp only [Node.getCurrentRound, getCurrentRound, hshrunk.highCertificate, le_refl]
  | commit _ _ => exact le_rfl
  | store _ _ _ => exact le_rfl
  | vote _ _ _ => exact le_rfl
  | send _ _ => exact le_rfl
  | timerFired => exact le_rfl
  | noEndorse _ _ _ _ _ _ => exact le_rfl

/-! ## What steps sign -/

def commandsOf (acts : List (Act env)) : List (ConsensusCommand env) := acts.filterMap Act.cmd?

@[simp] theorem commandsOf_append (acts acts' : List (Act env)) :
    commandsOf (acts ++ acts') = commandsOf acts ++ commandsOf acts' :=
  filterMap_append

@[simp] theorem commandsOf_nil : commandsOf ([] : List (Act env)) = [] := rfl

@[simp] theorem commandsOf_cmd (c : ConsensusCommand env) : commandsOf [.cmd c] = [c] := rfl

@[simp] theorem commandsOf_voted (p : ProposalMessage T) :
    commandsOf ([.voted p] : List (Act env)) = [] := rfl

@[simp] theorem commandsOf_map_cmd (cmds : List (ConsensusCommand env)) :
    commandsOf (cmds.map .cmd) = cmds := by
  simp [commandsOf, filterMap_map, Function.comp_def, Act.cmd?]

/-- What a node signs in a list of commands. -/
def signedBy (cmds : List (ConsensusCommand env)) : List (SigningMessage T) := cmds.flatMap signed

@[simp] theorem signedBy_append (cmds cmds' : List (ConsensusCommand env)) :
    signedBy (cmds ++ cmds') = signedBy cmds ++ signedBy cmds' :=
  flatMap_append

@[simp] theorem signedBy_nil : signedBy ([] : List (ConsensusCommand env)) = [] := rfl

@[simp] theorem signedBy_singleton (c : ConsensusCommand env) : signedBy [c] = c.signed := by
  simp [signedBy]

theorem signedBy_quiet (h : ∀ c ∈ cmds, c.IsQuiet ∧ c.Planned n) : signedBy cmds = [] :=
  flatMap_eq_nil_iff.mpr fun c hc => (h c hc).1.1

/-- Sending a vote signs that vote only. -/
theorem eq_vote_of_mem_signedBy_send {msg : SigningMessage T}
    (h : ∀ c ∈ cmds, c.IsQuiet ∧ c.Planned n ∨ ∃ target,
      c = .publish target (.vote { vote := v, sig := env.sign ctx.nodeid (.vote v) }))
    (hmsg : msg ∈ signedBy cmds) : msg = .vote v := by
  obtain ⟨c, hmem, hmsg⟩ := mem_flatMap.mp hmsg
  rcases h c hmem with ⟨hquiet, -⟩ | ⟨target, rfl⟩
  · rw [hquiet.1] at hmsg
    cases hmsg
  · simpa [signed] using hmsg

namespace Node

/-- The timeout a node sends in its current state. -/
def ownTimeout (ctx : Ctx env) (n : Node env) : TimeoutMessage T :=
  .new env ctx.nodeid (n.pacemaker.timeoutInfo n.safety) (n.pacemaker.highExtend n.safety)
    (n.safety.safeToIncludeVote n.getCurrentRound) (n.pacemaker.lastRoundCertificate n.safety)

/-- The vote in a node's timeout is for its high tip. -/
theorem vote?_ownTimeout :
    (n.ownTimeout ctx).vote? env = some v ↔
      ∃ tip, n.safety.maybeHighTip = some tip ∧
        n.safety.safeToIncludeVote n.getCurrentRound = true ∧
        v = { id := env.getId tip.blockHeader, round := n.getCurrentRound
              epoch := n.getCurrentEpoch } := by
  unfold ownTimeout TimeoutMessage.new TimeoutMessage.vote? highExtend
  rcases htip : n.safety.maybeHighTip with _ | tip
  · simp
  · by_cases hsafe : n.safety.safeToIncludeVote n.getCurrentRound = true
    · simp [hsafe, timeoutInfo, eq_comm]
    · simp [hsafe]

end Node

/-- What a node that times out changes and sends. -/
theorem timeout_spec (ctx : Ctx env) (h : n.pacemaker.processLocalTimeout env n.safety = .ok r) :
    n.withPacemaker r = { n with
        pacemaker := { n.pacemaker with phase := .one }
        safety := { n.safety with highestVote := n.getCurrentRound } } ∧
      commandsOf (pacemakerActs ctx r.2.2) =
        [.scheduleReset, .publish (.broadcast n.getCurrentEpoch) (.timeout (n.ownTimeout ctx)),
          .schedule n.getCurrentRound (getRoundTimer env n.getCurrentRound)] := by
  obtain ⟨p, s, cmds⟩ := r
  obtain ⟨rfl, hloc⟩ := processLocalTimeout_ok h
  obtain ⟨-, rfl, rfl⟩ := localTimeoutRound_ok hloc
  exact ⟨rfl, rfl⟩

/-- A certificate is ignored, or the node enters the round after it. -/
theorem certificate_spec (ctx : Ctx env)
    (h : n.pacemaker.processCertificate env n.safety n.epochManager cert = .ok r) :
    (cert.round < n.getCurrentRound ∧ n.withPacemaker r = n ∧
        commandsOf (pacemakerActs ctx r.2.2) = []) ∨
      (n.getCurrentRound ≤ cert.round ∧
        ∃ epoch, n.epochManager.getEpoch (cert.round + 1) = some epoch ∧
          n.withPacemaker r = { n with
            pacemaker := .entered epoch cert, safety := n.safety.processCertificate cert } ∧
          commandsOf (pacemakerActs ctx r.2.2) =
            [.enterRound epoch (cert.round + 1),
              .publishToFullNodes epoch cert.round (.advanceRound ⟨cert⟩),
              .schedule (cert.round + 1) (getRoundTimer env (cert.round + 1))]) := by
  obtain ⟨p, s, cmds⟩ := r
  rcases processCertificate_ok h with
    ⟨hle, rfl, rfl, rfl⟩ | ⟨hlt, epoch, hepoch, rfl, rfl, rfl⟩
  · exact .inl ⟨Nat.lt_succ_of_le hle, rfl, rfl⟩
  · exact .inr ⟨hlt, epoch, hepoch, rfl, rfl⟩

/-! ## Traces -/

abbrev Trace (ctx : Ctx env) (e : Event env) : Node env → List (Act env) → Node env → Prop :=
  Reach (Step ctx e)

theorem Trace.round_le (h : Trace ctx e n acts n') : n.getCurrentRound ≤ n'.getCurrentRound :=
  Reach.invariant (I := fun n' => n.getCurrentRound ≤ n'.getCurrentRound)
    (fun _ _ _ hle hstep => hle.trans hstep.round_le) le_rfl h

theorem ConsensusCommand.IsQuiet.timeout?_eq_none (h : c.IsQuiet) : c.timeout? = none := by
  have hsigned := h.1
  unfold timeout?
  split
  · simp [signed] at hsigned
  · rfl

/-- A step sends proposals that it plans and no timeout but the node's own, and it enters a round
by a certificate of the current round or a later one. -/
theorem Step.command (h : Step ctx e n acts n') (hc : c ∈ commandsOf acts) :
    c.Planned n ∧ (∀ m, c.timeout? = some m → m = n.ownTimeout ctx) ∧
      ∀ cert, c.entered? = some cert →
        Origin ctx e n.pacemaker cert ∧ n.getCurrentRound ≤ cert.round := by
  cases h with
  | quiet _ hquiet =>
    rw [commandsOf_map_cmd] at hc
    obtain ⟨hquiet, hplan⟩ := hquiet c hc
    exact ⟨hplan, by simp [hquiet.timeout?_eq_none], by simp [hquiet.2.1]⟩
  | certificate ho hproc =>
    rcases certificate_spec ctx hproc with ⟨-, -, hcs⟩ | ⟨hround, epoch, -, -, hcs⟩ <;> rw [hcs] at hc
    · cases hc
    simp only [mem_cons, not_mem_nil, or_false] at hc
    rcases hc with rfl | rfl | rfl
    · exact ⟨trivial, nofun, nofun⟩
    · exact ⟨trivial, nofun, fun cert hcert => Option.some.inj hcert ▸ ⟨ho, hround⟩⟩
    · exact ⟨trivial, nofun, nofun⟩
  | timeout hto =>
    rw [(timeout_spec ctx hto).2] at hc
    simp only [mem_cons, not_mem_nil, or_false] at hc
    rcases hc with rfl | rfl | rfl
    · exact ⟨trivial, nofun, nofun⟩
    · exact ⟨trivial, fun m hm => (Option.some.inj hm).symm, nofun⟩
    · exact ⟨trivial, nofun, nofun⟩
  | send _ hcs =>
    rw [commandsOf_map_cmd] at hc
    rcases hcs c hc with ⟨hquiet, hplan⟩ | ⟨target, rfl⟩
    · exact ⟨hplan, by simp [hquiet.timeout?_eq_none], by simp [hquiet.2.1]⟩
    · exact ⟨trivial, nofun, nofun⟩
  | noEndorse _ _ _ _ _ _ =>
    obtain rfl := mem_singleton.mp hc
    exact ⟨trivial, nofun, nofun⟩
  | commit _ _ =>
    obtain rfl := mem_singleton.mp hc
    exact ⟨trivial, nofun, nofun⟩
  | store _ _ _ => cases hc
  | drop _ => cases hc
  | vote _ _ _ => cases hc
  | timerFired => cases hc

/-- Every round entered along a trace is entered from a state of the trace. -/
theorem Trace.entered (h : Trace ctx e n acts n') (hc : c ∈ commandsOf acts)
    (hcert : c.entered? = some cert) :
    ∃ n₁ acts₁, Trace ctx e n acts₁ n₁ ∧ Origin ctx e n₁.pacemaker cert ∧
      n₁.getCurrentRound ≤ cert.round := by
  induction h with
  | nil => cases hc
  | @snoc n₁ n₂ acts₁ acts₂ htrace hstep ih =>
    rw [commandsOf_append] at hc
    rcases mem_append.mp hc with hc | hc
    · exact ih hc
    · exact ⟨n₁, acts₁, htrace, (hstep.command hc).2.2 cert hcert⟩

/-- Pending timeouts were pending before, or the event brings them. -/
theorem Trace.pending {author : NodeId} {m : TimeoutMessage T}
    (h : Trace ctx (.message author (.timeout m)) n acts n') :
    ∀ t ∈ n'.pacemaker.pendingTimeouts, t ∈ n.pacemaker.pendingTimeouts ∨ t = (author, m) := by
  refine Reach.invariant (I := fun n' : Node env =>
    ∀ t ∈ n'.pacemaker.pendingTimeouts, t ∈ n.pacemaker.pendingTimeouts ∨ t = (author, m))
    (fun n₁ a n₂ hold hstep t ht => ?_) (fun t ht => .inl ht) h
  cases hstep with
  | quiet hq _ =>
    rw [hq.pacemaker] at ht
    exact hold t ht
  | certificate _ hc =>
    rcases certificate_spec ctx hc with ⟨-, hn', -⟩ | ⟨-, epoch, -, hn', -⟩ <;> rw [hn'] at ht
    · exact hold t ht
    · cases ht
  | timeout hto =>
    rw [(timeout_spec ctx hto).1] at ht
    exact hold t ht
  | store he _ _ =>
    obtain ⟨rfl, rfl⟩ : author = _ ∧ m = _ := by simpa using he
    rcases mem_insertTimeout.mp ht with ht | ⟨ht, -⟩
    · exact .inr ht
    · exact hold t ht
  | drop hshrunk => exact hold t (hshrunk.pending.subset ht)
  | commit _ _ => exact hold t ht
  | vote _ _ _ => exact hold t ht
  | send _ _ => exact hold t ht
  | timerFired => exact hold t ht
  | noEndorse _ _ _ _ _ _ => exact hold t ht

/-- Handlers proceed by steps, and none of the assertions fails. -/
def discipline (ctx : Ctx env) (e : Event env) :
    Prog.Discipline (Node env) Panic (ConsensusCommand env) where
  trace n cmds n' := ∃ acts, commandsOf acts = cmds ∧ Trace ctx e n acts n'
  inv := NodeInv
  err panic := panic.isAssertion = false
  nil n := ⟨[], rfl, .nil n⟩
  append := by
    rintro n n₁ n₂ _ _ ⟨acts, rfl, h⟩ ⟨acts', rfl, h'⟩
    exact ⟨acts ++ acts', by simp, h.append h'⟩
  keeps := by
    rintro n _ n' hn ⟨acts, rfl, h⟩
    exact Reach.invariant (fun _ _ _ hn hstep => hstep.inv hn) hn h

end MonadBft
