import MonadBft.Run

/-!
# What timeouts report

A node's timeout reports the tip it voted for last, or else the QC of the certificate that
brought it into its round. The first part follows the two components that decide this, the
pacemaker and the safety rules, through any sequence of certificates, votes and timeouts
(`CoreStep`). Timeouts never report less (`timeout_reports_high`), provided that certificates
carry no older QCs than those before (`qcNotOlder`). The pacemaker keeps the last certificate
only, so otherwise the QC of an older one may be lost (`timeout_reports_less`).

The second part is about the messages of a node: every timeout it sends is well formed
(`Run.timeouts_wellFormed`).
-/

namespace MonadBft

open List Pacemaker

variable {T : Types} {env : Env T}

/-! ## The pacemaker and the safety rules -/

variable (T) in
/-- What a step of the two components does that timeouts depend on. -/
inductive Report where
  | accepted (cert : RoundCertificate T)
  | voted (tip : ConsensusTip T)
  | prepared (highExtend : HighExtend T)

/-- What the commands of the pacemaker tell. -/
def reportsOf (cmds : List (PacemakerCommand T)) : List (Report T) :=
  cmds.filterMap fun
    | .enterRound _ _ cert => some (.accepted cert)
    | .prepareTimeout _ high _ _ => some (.prepared high)
    | .schedule _ _ => none
    | .scheduleReset => none

/-- A condition on the certificates that are processed. -/
abbrev CertificateCondition (T : Types) := Pacemaker T → Safety T → RoundCertificate T → Prop

/-- A certificate that would be accepted carries a QC that is not older than those of the
certificates accepted before. -/
def qcNotOlder : CertificateCondition T := fun p s cert =>
  p.highCertificate.round < cert.round → s.highCertificateQcRound ≤ cert.getQc.getRound

/-- One operation on the pacemaker and the safety rules. Certificates are verified and meet
the condition `C`; so does every certificate that a supermajority of the timeouts collected
so far may be aggregated to. -/
inductive CoreStep (env : Env T) (C : CertificateCondition T) :
    Pacemaker T × Safety T → List (Report T) → Pacemaker T × Safety T → Prop
  | certificate {p p' : Pacemaker T} {s s' : Safety T} {validatorsOf : EpochToValidators}
      {em : EpochManager} {cert : RoundCertificate T} {cmds : List (PacemakerCommand T)} :
      verifyRoundCertificate env validatorsOf cert = .ok () → C p s cert →
      p.processCertificate env s em cert = .ok (p', s', cmds) →
      CoreStep env C (p, s) (reportsOf cmds) (p', s')
  | vote {p : Pacemaker T} {s s' : Safety T} {lastRoundTcTip : Option T.BlockId}
      {tip : ConsensusTip T} :
      s.vote p.getCurrentRound lastRoundTcTip tip = .ok s' →
      CoreStep env C (p, s) [.voted tip] (p, s')
  | localTimeout {p p' : Pacemaker T} {s s' : Safety T} {cmds : List (PacemakerCommand T)} :
      p.processLocalTimeout env s = .ok (p', s', cmds) →
      CoreStep env C (p, s) (reportsOf cmds) (p', s')
  | remoteTimeout {p p' : Pacemaker T} {s s' : Safety T} {validatorsOf : EpochToValidators}
      {em : EpochManager} {validators : ValidatorSet} {mapping : ValidatorMapping}
      {author : NodeId} {m : TimeoutMessage T} {cmds : List (PacemakerCommand T)} :
      m.validate env validatorsOf em = .ok () →
      (∀ timeouts tc, timeouts.Sublist (p.insertTimeout author m).pendingTimeouts →
        validators.hasSuperMajorityVotes (timeouts.map Prod.fst) = .ok true →
        TimeoutCertificate.new env m.tminfo.epoch m.tminfo.round timeouts mapping = .ok tc →
        C p s (.tc tc)) →
      p.processRemoteTimeout env s em validators mapping author m = .ok (p', s', cmds) →
      CoreStep env C (p, s) (reportsOf cmds) (p', s')

/-- The rounds of the QCs a node has seen in certificates, the first one included. -/
def qcRounds (start : RoundCertificate T) (reports : List (Report T)) : List ℕ :=
  start.getQc.getRound :: reports.filterMap fun
    | .accepted cert => some cert.getQc.getRound
    | .voted _ => none
    | .prepared _ => none

def lastVoted? (reports : List (Report T)) : Option (ConsensusTip T) :=
  (reports.filterMap fun
    | .voted tip => some tip
    | .accepted _ => none
    | .prepared _ => none).getLast?

/-- A report that is not below a QC seen before, nor below the last tip voted for if that
tip is above every such QC. -/
structure NotLess (start : RoundCertificate T) (before : List (Report T)) (high : HighExtend T) :
    Prop where
  qc : ∀ q ∈ qcRounds start before, .qc q ≤ high.rank
  tip : ∀ tip, lastVoted? before = some tip →
    (∀ q ∈ qcRounds start before, q < tip.blockHeader.blockRound) → tip.rank ≤ high.rank

section Core

variable {start : RoundCertificate T} {reports : List (Report T)} {p p' : Pacemaker T}
  {s s' : Safety T} {cmds : List (PacemakerCommand T)} {em : EpochManager}

@[simp] theorem reportsOf_nil : reportsOf ([] : List (PacemakerCommand T)) = [] := rfl

@[simp] theorem reportsOf_append (cmds cmds' : List (PacemakerCommand T)) :
    reportsOf (cmds ++ cmds') = reportsOf cmds ++ reportsOf cmds' :=
  filterMap_append

theorem qcRounds_append (reports reports' : List (Report T)) :
    qcRounds start (reports ++ reports') = qcRounds start reports ++ (qcRounds start reports').tail := by
  simp [qcRounds, filterMap_append]

/-- How the reports so far relate to the state. -/
structure CoreInv (start : RoundCertificate T) (reports : List (Report T)) (p : Pacemaker T)
    (s : Safety T) : Prop where
  seen : s.highCertificateQcRound ∈ qcRounds start reports
  seen_le : ∀ q ∈ qcRounds start reports, q ≤ s.highCertificateQcRound
  certificate : p.highCertificate.getQc.getRound = s.highCertificateQcRound
  tip : ∀ tip, s.maybeHighTip = some tip → s.highCertificateQcRound < tip.blockHeader.blockRound
  lastVoted : ∀ tip, lastVoted? reports = some tip →
    s.highCertificateQcRound < tip.blockHeader.blockRound → s.maybeHighTip = some tip
  prepared : ∀ before high after, reports = before ++ .prepared high :: after →
    NotLess start before high

namespace CoreInv

theorem init (em : EpochManager) (hp : new em start = .ok p) :
    CoreInv start [] p (.new env start none) := by
  unfold new at hp
  split at hp
  · cases hp
  · cases hp
    exact ⟨by simp [qcRounds, Safety.new], by simp [qcRounds, Safety.new], rfl,
      by simp [Safety.new], by simp [lastVoted?], by simp⟩

section

variable (h : CoreInv start reports p s) {cert : RoundCertificate T}

include h

/-- Only the last certificate, the high tip and the QC round matter. -/
theorem congr (hcert : p'.highCertificate = p.highCertificate)
    (htip : s'.maybeHighTip = s.maybeHighTip)
    (hqc : s'.highCertificateQcRound = s.highCertificateQcRound) : CoreInv start reports p' s' := by
  obtain ⟨h₁, h₂, h₃, h₄, h₅, h₆⟩ := h
  exact ⟨hqc ▸ h₁, hqc ▸ h₂, by rw [hcert, hqc, h₃], by rw [htip, hqc]; exact h₄,
    by rw [htip, hqc]; exact h₅, h₆⟩

theorem accept {epoch : ℕ} (hle : s.highCertificateQcRound ≤ cert.getQc.getRound) :
    CoreInv start (reports ++ [.accepted cert]) (.entered epoch cert)
      (s.processCertificate cert) := by
  have hround : (s.processCertificate cert).highCertificateQcRound = cert.getQc.getRound :=
    max_eq_right hle
  have hseen : qcRounds start (reports ++ [.accepted cert]) =
      qcRounds start reports ++ [cert.getQc.getRound] := by
    rw [qcRounds_append]
    rfl
  refine ⟨by rw [hround, hseen]; simp, fun q hq => ?_, hround.symm, fun tip ht => ?_,
    fun tip hlast hlt => ?_, fun before high after heq => ?_⟩
  · rw [hround]
    rcases mem_append.mp (hseen ▸ hq) with hq | hq
    · exact (h.seen_le q hq).trans hle
    · exact (mem_singleton.mp hq).le
  · exact (Safety.maybeHighTip_processCertificate.mp ht).2
  · rw [hround] at hlt
    have hlast : lastVoted? reports = some tip := by simpa [lastVoted?] using hlast
    refine Safety.maybeHighTip_processCertificate.mpr
      ⟨h.lastVoted tip hlast (hle.trans_lt hlt), max_lt (hle.trans_lt hlt) hlt⟩
  · rcases eq_snoc_append_cons heq with ⟨-, -, hr⟩ | ⟨after', -, hafter⟩
    · cases hr
    · exact h.prepared before high after' hafter

theorem vote {tip : ConsensusTip T} {round : ℕ} {lastRoundTcTip : Option T.BlockId}
    (hvote : s.vote round lastRoundTcTip tip = .ok s') :
    CoreInv start (reports ++ [.voted tip]) p s' := by
  obtain ⟨-, rfl⟩ := Safety.vote_eq_ok.mp hvote
  have hseen : qcRounds start (reports ++ [.voted tip]) = qcRounds start reports := by
    simp [qcRounds]
  refine ⟨hseen ▸ h.seen, hseen ▸ h.seen_le, h.certificate, fun t ht => ?_, fun t hlast hlt => ?_,
    fun before high after heq => ?_⟩
  · dsimp only at ht ⊢
    split at ht
    next hlt =>
      cases ht
      exact hlt
    · cases ht
  · obtain rfl : tip = t := by simpa [lastVoted?] using hlast
    exact if_pos hlt
  · rcases eq_snoc_append_cons heq with ⟨-, -, hr⟩ | ⟨after', -, hafter⟩
    · cases hr
    · exact h.prepared before high after' hafter

/-- A timeout reports the high tip, which is above every QC seen, or the highest QC. -/
theorem notLess : NotLess start reports (p.highExtend s) where
  qc q hq := by
    have hle := h.seen_le q hq
    unfold highExtend
    rcases htip : s.maybeHighTip with _ | tip
    · simpa [HighExtend.rank, h.certificate] using hle
    · have := h.tip tip htip
      simp only [HighExtend.rank, ConsensusTip.rank, HighExtendRank.qc_le_tip]
      omega
  tip tip hlast habove := by
    have htip := h.lastVoted tip hlast (habove _ h.seen)
    simp [highExtend, htip, HighExtend.rank]

theorem prepare (hcert : p'.highCertificate = p.highCertificate)
    (htip : s'.maybeHighTip = s.maybeHighTip)
    (hqc : s'.highCertificateQcRound = s.highCertificateQcRound) :
    CoreInv start (reports ++ [.prepared (p.highExtend s)]) p' s' := by
  have hseen : qcRounds start (reports ++ [.prepared (p.highExtend s)]) =
      qcRounds start reports := by
    simp [qcRounds]
  have hlast : lastVoted? (reports ++ [.prepared (p.highExtend s)]) = lastVoted? reports := by
    simp [lastVoted?]
  obtain ⟨h₁, h₂, h₃, h₄, h₅, h₆⟩ := h.congr hcert htip hqc
  refine ⟨hseen ▸ h₁, hseen ▸ h₂, h₃, h₄, hlast ▸ h₅, fun before high after heq => ?_⟩
  rcases eq_snoc_append_cons heq with ⟨-, rfl, hr⟩ | ⟨after', -, hafter⟩
  · obtain rfl : high = p.highExtend s := by simpa using hr
    exact h.notLess
  · exact h₆ before high after' hafter

/-- The certificate is ignored, or it is accepted and its QC is not older. -/
theorem certificate_step (hC : qcNotOlder p s cert)
    (hcert : p.processCertificate env s em cert = .ok (p', s', cmds)) :
    CoreInv start (reports ++ reportsOf cmds) p' s' := by
  rcases processCertificate_ok hcert with
    ⟨-, rfl, rfl, rfl⟩ | ⟨hlt, epoch, -, rfl, rfl, rfl⟩
  · simpa using h
  · exact h.accept (hC hlt)

theorem timeout_step (hto : p.processLocalTimeout env s = .ok (p', s', cmds)) :
    CoreInv start (reports ++ reportsOf cmds) p' s' := by
  obtain ⟨rfl, hloc⟩ := processLocalTimeout_ok hto
  obtain ⟨-, rfl, rfl⟩ := localTimeoutRound_ok hloc
  exact h.prepare rfl rfl rfl

/-- A remote timeout may make the node time out and then complete a certificate. -/
theorem remote_step {validators : ValidatorSet} {mapping : ValidatorMapping} {author : NodeId}
    {m : TimeoutMessage T}
    (hC : ∀ timeouts tc, timeouts.Sublist (p.insertTimeout author m).pendingTimeouts →
      validators.hasSuperMajorityVotes (timeouts.map Prod.fst) = .ok true →
      TimeoutCertificate.new env m.tminfo.epoch m.tminfo.round timeouts mapping = .ok tc →
      qcNotOlder p s (.tc tc))
    (hto : p.processRemoteTimeout env s em validators mapping author m = .ok (p', s', cmds)) :
    CoreInv start (reports ++ reportsOf cmds) p' s' := by
  rcases processRemoteTimeout_ok hto with
    ⟨rfl, rfl, rfl⟩ | ⟨-, p₁, s₁, cmds₁, cmds₂, rfl, hjoin, hagg⟩
  · simpa using h
  -- joining keeps the certificate, the QC round and the timeouts collected
  have hjoined : CoreInv start (reports ++ reportsOf cmds₁) p₁ s₁ ∧
      p₁.highCertificate = p.highCertificate ∧
      s₁.highCertificateQcRound = s.highCertificateQcRound ∧
      p₁.pendingTimeouts = (p.insertTimeout author m).pendingTimeouts := by
    have hins : CoreInv start reports (p.insertTimeout author m) s := h.congr rfl rfl rfl
    rcases joinTimeout_ok hjoin with ⟨rfl, rfl, rfl⟩ | hlocal
    · exact ⟨by simpa using hins, rfl, rfl, rfl⟩
    · have hstep := hins.timeout_step hlocal
      obtain ⟨rfl, hloc⟩ := processLocalTimeout_ok hlocal
      obtain ⟨-, rfl, -⟩ := localTimeoutRound_ok hloc
      exact ⟨hstep, rfl, rfl, rfl⟩
  obtain ⟨h₁, hcert, hqc, hpending⟩ := hjoined
  obtain ⟨p₂, hshrunk, hres⟩ := aggregateTimeouts_ok hagg
  have h₂ : CoreInv start (reports ++ reportsOf cmds₁) p₂ s₁ :=
    h₁.congr hshrunk.highCertificate rfl rfl
  rw [reportsOf_append, ← append_assoc]
  rcases hres with ⟨rfl, rfl, rfl⟩ | ⟨tc, htc, hmaj, hproc⟩
  · simpa using h₂
  · refine h₂.certificate_step (fun hlt => ?_) hproc
    rw [hqc]
    exact hC p₂.pendingTimeouts tc (hpending ▸ hshrunk.pending) hmaj htc
      (by rw [← hcert, ← hshrunk.highCertificate]; exact hlt)

end

theorem step {core core' : Pacemaker T × Safety T} {reports' : List (Report T)}
    (h : CoreInv start reports core.1 core.2) (hs : CoreStep env qcNotOlder core reports' core') :
    CoreInv start (reports ++ reports') core'.1 core'.2 := by
  cases hs with
  | certificate _ hC hcert => exact h.certificate_step hC hcert
  | vote hvote => exact h.vote hvote
  | localTimeout hto => exact h.timeout_step hto
  | remoteTimeout _ hC hto => exact h.remote_step hC hto

end CoreInv

end Core

/-- **Timeouts never report less.** Through any sequence of certificates, votes and timeouts
in which certificates carry QCs that are not older than those before, whatever a timeout
reports is not below a QC seen before in a certificate, nor below the last tip voted for if
that tip is above every such QC. -/
theorem timeout_reports_high {em : EpochManager} {start : RoundCertificate T}
    {p₀ p : Pacemaker T} {s : Safety T} {reports : List (Report T)}
    (hnew : Pacemaker.new em start = .ok p₀)
    (hrun : Reach (CoreStep env qcNotOlder) (p₀, .new env start none) reports (p, s)) :
    ∀ before high after, reports = before ++ .prepared high :: after →
      (∀ q ∈ qcRounds start before, .qc q ≤ high.rank) ∧
      ∀ tip, lastVoted? before = some tip →
        (∀ q ∈ qcRounds start before, q < tip.blockHeader.blockRound) → tip.rank ≤ high.rank := by
  have hinv := hrun.history (I := fun reports core => CoreInv start reports core.1 core.2)
    (CoreInv.init em hnew) fun _ _ _ _ h hs => h.step hs
  intro before high after heq
  have hless := hinv.prepared before high after heq
  exact ⟨hless.qc, hless.tip⟩

namespace Ideal

/-- The block of the second round, proposed again, is certified in the third. -/
def qcThree : QuorumCertificate types := qc [0, 1, 2] (headerId tipTwo.blockHeader) 3 1

/-- The block on it is certified in the fourth. -/
def tipThree : ConsensusTip types := tip 0 4 qcThree 2 0 none

def qcFour : QuorumCertificate types := qc [0, 1, 2] (headerId tipThree.blockHeader) 4 1

/-- In the fifth round three nodes report the block of the fourth and have not seen its QC. -/
def tcFive : TimeoutCertificate types := tc 5 [([0, 2, 3], 3, 4)] (.tip tipThree)

/-- A block on the QC of the fourth round. -/
def tipFive : ConsensusTip types := tip 0 5 qcFour 3 0 none

/-- The pacemaker in the round after a certificate. -/
def pacemakerAfter (cert : RoundCertificate types) : Pacemaker types := .entered 1 cert

def safetyOne : Safety types := .new soleLeader (.qc genesisQc) none

def safetyFive : Safety types := safetyOne.processCertificate (.qc qcFour)

def safetySix : Safety types := safetyFive.processCertificate (.tc tcFive)

/-- The QC of the fourth round is accepted. -/
theorem coreStep_qcFour {C : CertificateCondition types}
    (hC : C (pacemakerAfter (.qc genesisQc)) safetyOne (.qc qcFour)) :
    CoreStep soleLeader C (pacemakerAfter (.qc genesisQc), safetyOne) [.accepted (.qc qcFour)]
      (pacemakerAfter (.qc qcFour), safetyFive) := by
  have hverify : verifyRoundCertificate soleLeader
      (epochToValidators soleLeader epochs fun _ => some (committee, keys)) (.qc qcFour) = .ok () := by
    decide +kernel
  have hproc : (pacemakerAfter (.qc genesisQc)).processCertificate soleLeader safetyOne epochs
      (.qc qcFour) = .ok (pacemakerAfter (.qc qcFour), safetyFive,
        [.enterRound 1 5 (.qc qcFour), .schedule 5 (getRoundTimer soleLeader 5)]) := rfl
  exact CoreStep.certificate hverify hC hproc

end Ideal

open MonadBft.Ideal

theorem timeout_reports_high_tipFive :
    HighExtendRank.qc 4 ≤ (HighExtend.tip tipFive).rank ∧
      tipFive.rank ≤ (HighExtend.tip tipFive).rank := by
  let voted : Safety types := { safetyFive with highestVote := 5, maybeHighTip := some tipFive }
  have hvote : CoreStep soleLeader qcNotOlder
      (pacemakerAfter (.qc qcFour), safetyFive) [.voted tipFive]
      (pacemakerAfter (.qc qcFour), voted) :=
    CoreStep.vote (show safetyFive.vote 5 none tipFive = .ok voted from rfl)
  have hto : (pacemakerAfter (.qc qcFour)).processLocalTimeout soleLeader voted =
      .ok ({ pacemakerAfter (.qc qcFour) with phase := .one }, voted,
        [.scheduleReset, .prepareTimeout ⟨1, 5, 4, 5⟩ (.tip tipFive) true none,
          .schedule 5 (Pacemaker.getRoundTimer soleLeader 5)]) := rfl
  have hrun := ((Reach.single (coreStep_qcFour (C := qcNotOlder) fun _ => Nat.zero_le _)).snoc
    hvote).snoc (CoreStep.localTimeout hto)
  obtain ⟨hqc, htip⟩ := timeout_reports_high (by rfl : Pacemaker.new epochs _ = .ok _) hrun
    [.accepted (.qc qcFour), .voted tipFive] _ [] rfl
  exact ⟨hqc 4 (by decide), htip tipFive rfl (by decide)⟩

/-- Without the condition the QC of the fourth round is lost: the next timeout certificate
carries the QC of the third, and that is what the node reports. -/
theorem timeout_reports_less :
    Pacemaker.new epochs (.qc genesisQc) = .ok (pacemakerAfter (.qc genesisQc)) ∧
    (∃ core, Reach (CoreStep soleLeader fun _ _ _ => True)
      (pacemakerAfter (.qc genesisQc), .new soleLeader (.qc genesisQc) none)
      [.accepted (.qc qcFour), .accepted (.tc tcFive), .prepared (.qc qcThree)]
      core) ∧
    4 ∈ qcRounds (.qc genesisQc) [.accepted (.qc qcFour), .accepted (.tc tcFive)] ∧
    ¬ HighExtendRank.qc 4 ≤ (HighExtend.qc qcThree).rank := by
  have hverify : verifyRoundCertificate soleLeader (epochToValidators soleLeader
      epochs fun _ => some (committee, keys)) (.tc tcFive) = .ok () := by
    decide +kernel
  have htc : (pacemakerAfter (.qc qcFour)).processCertificate soleLeader
      safetyFive epochs (.tc tcFive) =
      .ok (pacemakerAfter (.tc tcFive), safetySix,
        [.enterRound 1 6 (.tc tcFive), .schedule 6 (Pacemaker.getRoundTimer soleLeader 6)]) := rfl
  have hto : (pacemakerAfter (.tc tcFive)).processLocalTimeout soleLeader
      safetySix =
      .ok ({ pacemakerAfter (.tc tcFive) with phase := .one }, { safetySix with highestVote := 6 },
        [.scheduleReset, .prepareTimeout ⟨1, 6, 3, 0⟩ (.qc qcThree) true (some (.tc tcFive)),
          .schedule 6 (Pacemaker.getRoundTimer soleLeader 6)]) := rfl
  have hrun := ((Reach.single (coreStep_qcFour (C := fun _ _ _ => True) trivial)).snoc
    (CoreStep.certificate hverify trivial htc)).snoc (CoreStep.localTimeout hto)
  exact ⟨rfl, ⟨_, hrun⟩, by decide, by decide⟩

/-! ## The timeouts of a node -/

def timeoutsBy (cmds : List (ConsensusCommand env)) : List (TimeoutMessage T) :=
  cmds.filterMap ConsensusCommand.timeout?

def timeoutsIn (log : List (Entry env)) : List (TimeoutMessage T) :=
  log.flatMap fun entry => timeoutsBy entry.commands

theorem mem_timeoutsIn_snoc {log : List (Entry env)} {e : Event env}
    {cmds cmds' : List (ConsensusCommand env)} {m : TimeoutMessage T} :
    m ∈ timeoutsIn (log ++ [⟨e, cmds ++ cmds'⟩]) ↔
      m ∈ timeoutsIn (log ++ [⟨e, cmds⟩]) ∨ m ∈ timeoutsBy cmds' := by
  simp [timeoutsIn, timeoutsBy, filterMap_append, or_assoc]

/-- What a receiver requires of a timeout, and that its QC is from an earlier round. -/
structure TimeoutMessage.Acceptable (m : TimeoutMessage T) : Prop where
  wellFormed : m.wellFormedTimeout = .ok ()
  rank : m.highExtend.rank = m.tminfo.rank
  absent : m.lastRoundCertificate = none ↔ m.highExtend.getQc.getRound + 1 = m.tminfo.round
  present : ∀ cert, m.lastRoundCertificate = some cert → cert.round + 1 = m.tminfo.round
  qcRound_lt : m.tminfo.highQcRound < m.tminfo.round

section Node

variable {ctx : Ctx env} {e : Event env} {n n' : Node env} {a : List (Act env)}

/-- The rounds a timeout signs are those of what it extends: the high tip of a node is not
of the genesis round. -/
theorem Node.rank_timeoutInfo (hn : NodeInv n) :
    (n.pacemaker.highExtend n.safety).rank = (n.pacemaker.timeoutInfo n.safety).rank := by
  unfold timeoutInfo TimeoutInfo.rank highExtend
  rcases htip : n.safety.maybeHighTip with _ | tip
  · rfl
  · have hpos : tip.blockHeader.blockRound ≠ GENESIS_ROUND :=
      (Nat.zero_lt_of_lt (hn.tip tip htip)).ne'
    simp only [HighExtendRank.ofRounds, if_neg hpos]
    rfl

theorem Node.qcRound_highExtend_lt (hq : QcInv n) :
    (n.pacemaker.highExtend n.safety).getQc.getRound < n.getCurrentRound := by
  unfold highExtend
  rcases htip : n.safety.maybeHighTip with _ | tip
  · exact Nat.lt_succ_of_le hq.certificate
  · exact hq.tip tip htip

/-- The timeout a node sends is acceptable. -/
theorem Node.acceptable_ownTimeout (hn : NodeInv n) (hq : QcInv n) :
    (n.ownTimeout ctx).Acceptable := by
  have hhigh : (n.ownTimeout ctx).highExtend.toHighExtend = n.pacemaker.highExtend n.safety :=
    TimeoutMessage.toHighExtend_new ..
  have hrank : (n.ownTimeout ctx).highExtend.rank = (n.ownTimeout ctx).tminfo.rank := by
    rw [HighExtendVote.rank, hhigh]
    exact Node.rank_timeoutInfo hn
  have hqc : (n.ownTimeout ctx).highExtend.getQc.getRound =
      (n.pacemaker.highExtend n.safety).getQc.getRound := by
    rw [HighExtendVote.getQc, hhigh]
  have hcert : (n.ownTimeout ctx).lastRoundCertificate =
      if (n.ownTimeout ctx).highExtend.getQc.getRound + 1 = (n.ownTimeout ctx).tminfo.round then none
      else some n.pacemaker.highCertificate := by
    rw [hqc]
    rfl
  have hround : n.pacemaker.highCertificate.round + 1 = (n.ownTimeout ctx).tminfo.round := rfl
  refine ⟨?_, hrank, ?_, fun cert hsome => ?_, Node.qcRound_highExtend_lt hq⟩
  · unfold TimeoutMessage.wellFormedTimeout
    by_cases hcons : (n.ownTimeout ctx).highExtend.getQc.getRound + 1 =
        (n.ownTimeout ctx).tminfo.round
    · simp [hrank, hcert, hcons]
    · simp [hrank, hcert, hcons, Ne.symm hcons, hround]
  · rw [hcert]
    split <;> simp_all
  · rw [hcert] at hsome
    split at hsome
    · cases hsome
    · cases hsome
      exact hround

/-- A step sends no timeout but the node's own. -/
theorem Step.timeout_eq {m : TimeoutMessage T} (h : Step ctx e n a n')
    (hmem : m ∈ timeoutsBy (commandsOf a)) : m = n.ownTimeout ctx := by
  obtain ⟨c, hc, hm⟩ := mem_filterMap.mp hmem
  exact (h.command hc).2.1 m hm

end Node

/-- **Timeouts are well formed.** Every timeout that a node sends, in every run that starts
from a verified certificate, passes the checks of its receivers. -/
theorem Run.timeouts_wellFormed {id : NodeId} {em : EpochManager} {root : RootInfo T}
    {cert : RoundCertificate T} {validatorsOf : EpochToValidators} {n₀ n : Node env}
    {log : List (Entry env)} (hcert : verifyRoundCertificate env validatorsOf cert = .ok ())
    (hnew : Node.new env em root cert = .ok n₀) (hrun : Run id anyEvent n₀ log n) :
    ∀ m ∈ timeoutsIn log, m.wellFormedTimeout = .ok () ∧ m.highExtend.rank = m.tminfo.rank ∧
      (m.lastRoundCertificate = none ↔ m.highExtend.getQc.getRound + 1 = m.tminfo.round) ∧
      (∀ cert, m.lastRoundCertificate = some cert → cert.round + 1 = m.tminfo.round) ∧
      m.tminfo.highQcRound < m.tminfo.round := by
  have hq := Node.qcInv_new hnew (qcRound_le_of_verifyRoundCertificate hcert)
  obtain ⟨acts, -, hall⟩ := hrun.history
    (I := fun log _ n => QcInv n ∧ ∀ m ∈ timeoutsIn log, m.Acceptable) (Node.inv_new hnew)
    ⟨hq, by simp [timeoutsIn]⟩ (fun _ _ h => ⟨h.1, by simpa [timeoutsIn, timeoutsBy] using h.2⟩) (by
      rintro ctx log acts e cmds a n n' - he hn ⟨hq, hall⟩ hs
      refine ⟨hs.qcInv he hq, fun m hm => ?_⟩
      rcases mem_timeoutsIn_snoc.mp hm with hm | hm
      · exact hall m hm
      · rw [hs.timeout_eq hm]
        exact Node.acceptable_ownTimeout hn hq)
  intro m hm
  obtain ⟨h₁, h₂, h₃, h₄, h₅⟩ := hall m hm
  exact ⟨h₁, h₂, h₃, h₄, h₅⟩

theorem Run.timeouts_wellFormed_firstRun :
    (timeoutsIn firstRun.1).length = 2 ∧
    ∀ m ∈ timeoutsIn firstRun.1, m.wellFormedTimeout = .ok () ∧ m.highExtend.rank = m.tminfo.rank ∧
      (m.lastRoundCertificate = none ↔ m.highExtend.getQc.getRound + 1 = m.tminfo.round) ∧
      (∀ cert, m.lastRoundCertificate = some cert → cert.round + 1 = m.tminfo.round) ∧
      m.tminfo.highQcRound < m.tminfo.round := by
  have hverify : verifyRoundCertificate soleLeader (epochToValidators soleLeader
      epochs fun _ => some (committee, keys)) (.qc genesisQc) = .ok () := by
    decide +kernel
  exact ⟨by decide +kernel, Run.timeouts_wellFormed hverify new_genesisNode run_firstRun⟩

end MonadBft
