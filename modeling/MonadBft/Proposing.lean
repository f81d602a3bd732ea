import MonadBft.Run

/-!
# Proposals of an honest leader

What a leader proposes depends on the certificate by which it entered its round: a QC, a
TC that extends a QC, or a TC that extends a tip, with or without a no-endorsement
certificate for that tip (`Node.proposalPlan`). A receiver decides by the rounds in the
message what certificates have to be there, and rejects missing and superfluous ones
(`wellFormedProposal`, `tipRoundsFit`). The two agree (`Run.proposals_fit`).
-/

namespace MonadBft

open Node

variable {T : Types} {env : Env T} {validatorsOf : EpochToValidators}

/-- The no-endorsement is an answer to a round recovery with this certificate. -/
def NoEndorsement.Answers (msg : NoEndorsement) (tc : TimeoutCertificate T) : Prop :=
  ∃ tip, tc.highExtend = .tip tip ∧ msg.round = tc.round + 1 ∧
    msg.tipQcRound = tip.blockHeader.qc.getRound

/-- A proposal passes what a receiver checks of its rounds and certificates. The signatures
of a no-endorsement certificate in it are a matter of their own. -/
structure ProposalMessage.Fits (env : Env T) (validatorsOf : EpochToValidators)
    (p : ProposalMessage T) : Prop where
  wellFormed : p.wellFormedProposal env = .ok ()
  tip : tipRoundsFit p.tip = .ok ()
  qc : verifyQc env validatorsOf p.tip.blockHeader.qc = .ok ()
  fresh : (∀ nec, p.tip.freshCertificate = some (.nec nec) → verifyNec env validatorsOf nec = .ok ()) →
    verifyFresh env validatorsOf p.tip.freshCertificate = .ok ()

/-! ## The proposals that are planned -/

section Planned

variable {n : Node env} {p : ProposalMessage T} {c : CreateProposal env}

/-- A node is in the round after its certificate. -/
theorem Node.getCurrentRound_eq (n : Node env) :
    n.getCurrentRound = n.pacemaker.highCertificate.round + 1 := rfl

theorem repropose_plan {tip : ConsensusTip T} {tc : TimeoutCertificate T}
    (h : n.proposalPlan n.getCurrentRound = .repropose tip tc) :
    n.pacemaker.highCertificate = .tc tc ∧ tc.highExtend = .tip tip := by
  unfold proposalPlan at h
  split at h
  · cases h
  next tc' hcert =>
    split at h
    · cases h
    split at h
    next tip' hext =>
      cases h
      exact ⟨hcert, hext⟩
    · cases h

/-- The three ways to propose a fresh block. -/
theorem fresh_plan {qc : QuorumCertificate T} {fresh : Option (FreshProposalCertificate T)}
    {lastRoundTc : Option (TimeoutCertificate T)}
    (h : n.proposalPlan n.getCurrentRound = .fresh qc fresh lastRoundTc) :
    (n.pacemaker.highCertificate = .qc qc ∧ fresh = none ∧ lastRoundTc = none) ∨
    ∃ tc, n.pacemaker.highCertificate = .tc tc ∧ lastRoundTc = some tc ∧ qc = tc.highExtend.getQc ∧
      ((∃ nec, n.noEndorsementState.getNec n.getCurrentRound = some nec ∧ fresh = some (.nec nec)) ∨
        (tc.highExtend = .qc qc ∧ ∃ noTip : NoTipCertificate T,
          noTip.toTc = tc ∧ noTip.highQc = qc ∧ fresh = some (.noTip noTip))) := by
  unfold proposalPlan at h
  split at h
  next qc' hcert =>
    cases h
    exact .inl ⟨hcert, rfl, rfl⟩
  next tc hcert =>
    refine .inr ⟨tc, hcert, ?_⟩
    split at h
    next nec hnec =>
      cases h
      exact ⟨rfl, rfl, .inl ⟨nec, hnec, rfl⟩⟩
    split at h
    · cases h
    next qc' hext =>
      cases h
      refine ⟨rfl, by rw [hext]; rfl, .inr ⟨hext, _, ?_, rfl, rfl⟩⟩
      obtain ⟨epoch, round, tipRounds, highExtend⟩ := tc
      cases hext
      rfl

/-- A reproposal carries the TC the leader entered the round by, with the body of the tip. -/
theorem fits_of_repropose {target : RouterTarget} (hid : Function.Injective env.getId)
    (hplan : (.publish target (.proposal p) : ConsensusCommand env).Planned n)
    (hcert : verifyRoundCertificate env validatorsOf n.pacemaker.highCertificate = .ok ()) :
    p.Fits env validatorsOf := by
  obtain ⟨tc, block, hplan, hround, htc, hblock, hbody⟩ := hplan
  obtain ⟨hhigh, hext⟩ := repropose_plan hplan
  rw [hhigh] at hcert
  have hok := verifyTc_eq_ok.mp hcert
  have hlt := hok.qcRound_lt
  have htip := hok.extend
  rw [hext] at hlt htip
  obtain ⟨hfit, hqc, hfresh⟩ := verifyTip_ok htip
  refine ⟨?_, hfit, hqc, fun _ => hfresh⟩
  have hheader : block.header = p.tip.blockHeader := hid hblock
  have hbodyId : p.tip.blockHeader.blockBodyId = env.getBodyId p.blockBody := by
    rw [← hheader, hbody]
    exact block.body_matches.symm
  have hround : p.proposalRound = tc.round + 1 := by rw [hround, n.getCurrentRound_eq, hhigh]; rfl
  have hne : tc.round ≠ p.tip.blockHeader.qc.getRound := Nat.ne_of_gt hlt
  unfold ProposalMessage.wellFormedProposal
  simp [hbodyId, htc, hround, hext, hne]

/-- A fresh block extends the QC the leader entered the round by, or that of the TC it
entered the round by, and then it comes with a certificate that it may do so. -/
theorem fits_of_createProposal (hn : NodeInv n)
    (hplan : (.createProposal c : ConsensusCommand env).Planned n)
    (hcert : verifyRoundCertificate env validatorsOf n.pacemaker.highCertificate = .ok ())
    (hnec : ∀ nec tc, c.freshProposalCertificate = some (.nec nec) → c.lastRoundTc = some tc →
      nec.msg.Answers tc) (blockBody : T.BlockBody) (executionInputs : T.ExecutionInputs) :
    (proposalMessage c blockBody executionInputs).Fits env validatorsOf := by
  obtain ⟨hplan, hround⟩ := hplan
  rcases fresh_plan hplan with ⟨hhigh, hfresh, htc⟩ | ⟨tc, hhigh, htc, hqc, hcases⟩
  · rw [hhigh] at hcert
    have hround : c.round = c.highQc.getRound + 1 := by rw [hround, n.getCurrentRound_eq, hhigh]; rfl
    refine ⟨?_, ?_, hcert, fun _ => ?_⟩
    · simp [ProposalMessage.wellFormedProposal, proposalMessage, hround, htc]
    · simp [tipRoundsFit, proposalMessage, hround, hfresh]
    · simp [verifyFresh, proposalMessage, hfresh]
  · rw [hhigh] at hcert
    have hok := verifyTc_eq_ok.mp hcert
    have hround' : c.round = tc.round + 1 := by rw [hround, n.getCurrentRound_eq, hhigh]; rfl
    have hne : tc.round ≠ c.highQc.getRound := by
      rw [hqc]
      exact Nat.ne_of_gt hok.qcRound_lt
    have hverify : verifyQc env validatorsOf c.highQc = .ok () := by
      rw [hqc]
      exact verifyHighExtend_qc hok.extend
    have hwell : (proposalMessage c blockBody executionInputs).wellFormedProposal env = .ok () := by
      unfold ProposalMessage.wellFormedProposal
      cases hext : tc.highExtend with
      | qc q =>
        have hq : q.getRound = c.highQc.getRound := by rw [hqc, hext]; rfl
        simp [proposalMessage, htc, hround', hne, hext, hq]
      | tip t =>
        have hq : t.blockHeader.qc.getRound = c.highQc.getRound := by rw [hqc, hext]; rfl
        simp [proposalMessage, htc, hround', hne, hext, hq]
    rcases hcases with ⟨nec, hget, hfresh⟩ | ⟨hext, noTip, hto, hhighQc, hfresh⟩
    · -- the tip is skipped with a no-endorsement certificate
      obtain ⟨tip, hext, -, hskip⟩ := hnec nec tc hfresh htc
      have hkey : nec.msg.round = tc.round + 1 := by
        rw [hn.keyed.getNec hget, n.getCurrentRound_eq, hhigh]
        rfl
      have hq : nec.msg.tipQcRound = c.highQc.getRound := by rw [hskip, hqc, hext]; rfl
      refine ⟨hwell, ?_, hverify, fun hvalid => ?_⟩
      · simp [tipRoundsFit, proposalMessage, hround', hne, hfresh, hkey, hq]
      · have hsome : (proposalMessage c blockBody executionInputs).tip.freshCertificate =
            some (.nec nec) := hfresh
        rw [hsome]
        exact hvalid nec hsome
    · -- there is no tip, and the TC itself is the certificate
      have hsame : noTip.round = tc.round := by rw [← hto]; rfl
      refine ⟨hwell, ?_, hverify, fun _ => ?_⟩
      · simp [tipRoundsFit, proposalMessage, hround', hne, hfresh, hsame, hhighQc]
      have hsome : (proposalMessage c blockBody executionInputs).tip.freshCertificate =
          some (.noTip noTip) := hfresh
      rw [hsome]
      refine verifyTcWith_eq_ok.mpr ?_
      rw [hto]
      refine ⟨hok.signed, hok.distinct, ?_, hok.rank_eq⟩
      rw [hext]
      exact hverify

end Planned

/-! ## The proposals that are sent -/

section Steps

variable {ctx : Ctx env} {e : Event env} {n n' : Node env} {acts : List (Act env)}
  {c : ConsensusCommand env}

/-- A node that stays in its round keeps its certificate. -/
theorem Step.highCertificate_eq (h : Step ctx e n acts n')
    (hround : n'.getCurrentRound = n.getCurrentRound) :
    n'.pacemaker.highCertificate = n.pacemaker.highCertificate := by
  cases h with
  | quiet hq _ => rw [hq.pacemaker]
  | certificate _ hproc =>
    rcases certificate_spec ctx hproc with ⟨-, hsame, -⟩ | ⟨hle, epoch, -, hnew, -⟩
    · rw [hsame]
    · rw [hnew] at hround
      exact absurd (Nat.lt_succ_of_le hle) (Nat.not_lt.mpr hround.le)
  | timeout hto => rw [(timeout_spec ctx hto).1]
  | drop hshrunk => exact hshrunk.highCertificate
  | commit _ _ => rfl
  | store _ _ _ => rfl
  | vote _ _ _ => rfl
  | send _ _ => rfl
  | timerFired => rfl
  | noEndorse _ _ _ _ _ _ => rfl

/-- Along a trace within one round, every proposal is planned with the certificate of that
round. -/
theorem Trace.planned (h : Trace ctx e n acts n') (hn : NodeInv n)
    (hround : n'.getCurrentRound = n.getCurrentRound) (hc : c ∈ commandsOf acts) :
    ∃ n₁, NodeInv n₁ ∧ n₁.pacemaker.highCertificate = n.pacemaker.highCertificate ∧
      c.Planned n₁ := by
  suffices hmain : n'.pacemaker.highCertificate = n.pacemaker.highCertificate ∧
      ∀ c ∈ commandsOf acts, ∃ n₁, NodeInv n₁ ∧
        n₁.pacemaker.highCertificate = n.pacemaker.highCertificate ∧ c.Planned n₁ from
    hmain.2 c hc
  clear hc
  induction h with
  | nil => exact ⟨rfl, fun c hc => by cases hc⟩
  | @snoc n₁ n₂ acts₁ acts₂ htrace hstep ih =>
    have hle := Trace.round_le htrace
    have hle' := hstep.round_le
    have hround₁ : n₁.getCurrentRound = n.getCurrentRound := by omega
    have hround₂ : n₂.getCurrentRound = n₁.getCurrentRound := by omega
    obtain ⟨hcert, hall⟩ := ih hround₁
    refine ⟨(hstep.highCertificate_eq hround₂).trans hcert, fun c hc => ?_⟩
    rw [commandsOf_append] at hc
    rcases List.mem_append.mp hc with hc | hc
    · exact hall c hc
    · exact ⟨n₁, Trace.inv hn htrace, hcert, (hstep.command hc).1⟩

end Steps

/-- **Proposals fit.** In every state of a run in which a leader whose high certificate
verifies proposes, the proposal passes the checks of its receivers on rounds and
certificates. This is so for the tip of the last TC, and for every block that is built from
what the leader asks for, if a no-endorsement certificate that is used answers that TC. -/
theorem Run.proposals_fit {id : NodeId} {em : EpochManager} {root : RootInfo T}
    {cert : RoundCertificate T} {n₀ n leader n' : Node env} {log : List (Entry env)}
    {ctx : Ctx env} {e : Event env} {acts : List (Act env)} {cmds : List (ConsensusCommand env)}
    (hid : Function.Injective env.getId) (hnew : Node.new env em root cert = .ok n₀)
    (hrun : Run id anyEvent n₀ log n) (htrace : Trace ctx e n acts leader)
    (hpropose : tryPropose ctx leader = .ok (⟨⟩, n', cmds))
    (hcert : verifyRoundCertificate env validatorsOf leader.pacemaker.highCertificate = .ok ()) :
    (∀ target p, .publish target (.proposal p) ∈ cmds → p.Fits env validatorsOf) ∧
    ∀ c : CreateProposal env, .createProposal c ∈ cmds →
      (∀ nec tc, c.freshProposalCertificate = some (.nec nec) → c.lastRoundTc = some tc →
        nec.msg.Answers tc) →
      ∀ blockBody executionInputs,
        (proposalMessage c blockBody executionInputs).Fits env validatorsOf := by
  have hn : NodeInv leader := Trace.inv (hrun.inv (inv_new hnew)) htrace
  obtain ⟨⟨acts', rfl, htrace'⟩, hpacemaker⟩ :=
    Prog.sat_of_ok (follows_tryPropose (e := e) hn) hpropose
  have hround : n'.getCurrentRound = leader.getCurrentRound := by
    rw [getCurrentRound, hpacemaker]
  constructor
  · intro target p hp
    obtain ⟨n₁, -, hsame, hplan⟩ := Trace.planned htrace' hn hround hp
    exact fits_of_repropose hid hplan (hsame.symm ▸ hcert)
  · intro c hc hnec blockBody executionInputs
    obtain ⟨n₁, hn₁, hsame, hplan⟩ := Trace.planned htrace' hn hround hc
    exact fits_of_createProposal hn₁ hplan (hsame.symm ▸ hcert) hnec blockBody executionInputs

namespace Ideal

/-- What the pacemaker of a node in the first round does with a TC of that round. -/
def enteredTwo : Pacemaker types × Safety types × List (PacemakerCommand types) :=
  ((genesisNode fun _ => 0).pacemaker.processCertificate soleLeader (genesisNode fun _ => 0).safety
    epochs (.tc tcOne)).toOption.get (by decide +kernel)

/-- The leader of the second round, after a first round without proposal. -/
def leaderTwo : Node soleLeader := (genesisNode _).withPacemaker enteredTwo

def proposedTwo : PUnit × Node soleLeader × List (ConsensusCommand soleLeader) :=
  (tryPropose (member 0 10) leaderTwo).toOption.get (by decide +kernel)

theorem trace_leaderTwo : Trace (member 0 10) (.message 1 (.advanceRound ⟨.tc tcOne⟩))
    (genesisNode _) (pacemakerActs (member 0 10) enteredTwo.2.2) leaderTwo :=
  .single (.certificate (.carried (List.mem_singleton.mpr rfl)) (eq_ok_get _))

/-- The validators the leader knows. -/
abbrev knownValidators : EpochToValidators :=
  epochToValidators soleLeader epochs fun _ => some (committee, keys)

end Ideal

open MonadBft.Ideal

theorem Run.proposals_fit_leaderTwo :
    verifyRoundCertificate soleLeader knownValidators
        leaderTwo.pacemaker.highCertificate = .ok () ∧
      ∃ c : CreateProposal soleLeader, .createProposal c ∈ proposedTwo.2.2 ∧
        c.round = 2 ∧ c.freshProposalCertificate = some (noTip tcOne) ∧
        (proposalMessage c 1 0).Fits soleLeader knownValidators := by
  have hcert : verifyRoundCertificate soleLeader knownValidators
      leaderTwo.pacemaker.highCertificate = .ok () := by decide +kernel
  have hpropose : tryPropose (member 0 10) leaderTwo = .ok proposedTwo := eq_ok_get _
  have htest : (proposedTwo.2.2.any fun
      | .createProposal c => decide (c.round = 2 ∧ c.freshProposalCertificate = some (noTip tcOne))
      | _ => false) = true := by decide +kernel
  obtain ⟨cmd, hcmd, hcreate⟩ := List.any_eq_true.mp htest
  cases cmd with
  | createProposal c =>
    obtain ⟨hround, hfresh⟩ := of_decide_eq_true hcreate
    refine ⟨hcert, c, hcmd, hround, hfresh, ?_⟩
    have hfit := Run.proposals_fit headerId_injective new_genesisNode
      (.nil _ : Run 0 anyEvent _ _ _) trace_leaderTwo hpropose hcert
    refine hfit.2 c hcmd (fun nec tc hnec => ?_) 1 0
    rw [hfresh] at hnec
    cases hnec
  | _ => cases hcreate

end MonadBft
