import MonadBft.Ideal

/-!
# The rounds of a proposal

A block is to be proposed in its own round, unless the proposal repeats the tip of its timeout
certificate. `wellFormedProposal` compares the two rounds only if the certificate extends another
tip. On the QC of the round before, and on a certificate that extends a QC, any tip is accepted
whose QC has the right round, such as a block of a later round with a certificate of no endorsement
(`later_block_accepted`). Nor does anything bound the round of the QC that such a certificate names.

`ProposalMessage.rounds_iff` says for which certificates the rounds are right.
-/

namespace MonadBft

variable {T : Types} {env : Env T} {validatorsOf : EpochToValidators}

namespace ProposalMessage

/-- The proposal repeats the tip that its timeout certificate extends. -/
def Reproposes (p : ProposalMessage T) : Prop :=
  ∃ tc, p.lastRoundTc = some tc ∧ tc.highExtend = .tip p.tip

/-- The block extends an earlier round, and is proposed in its own round or again later. -/
def RoundsRight (p : ProposalMessage T) : Prop :=
  p.tip.blockHeader.qc.getRound < p.tip.blockHeader.blockRound ∧
    p.tip.blockHeader.blockRound ≤ p.proposalRound ∧
    (p.tip.blockHeader.blockRound = p.proposalRound ∨ p.Reproposes)

/-- The tip's certificate is for the round of the proposal, or for no later one if the tip is
proposed again. -/
def CertificateFits (p : ProposalMessage T) : Prop :=
  match p.tip.freshCertificate with
  | none => p.lastRoundTc = none ∨ p.Reproposes
  | some (.nec nec) =>
    nec.msg.tipQcRound < nec.msg.round ∧ (nec.msg.round = p.proposalRound ∨
      nec.msg.round ≤ p.proposalRound ∧ p.Reproposes)
  | some (.noTip noTip) =>
    noTip.round + 1 = p.proposalRound ∨ noTip.round + 1 ≤ p.proposalRound ∧ p.Reproposes

/-- Without a certificate for its tip, a proposal is for the round of its block exactly if it has
no timeout certificate. -/
theorem lastRoundTc_eq_none_iff {p : ProposalMessage T} (h : p.wellFormedProposal env = .ok ())
    (hround : p.tip.blockHeader.blockRound = p.tip.blockHeader.qc.getRound + 1) :
    p.lastRoundTc = none ↔ p.tip.blockHeader.blockRound = p.proposalRound := by
  rcases (wellFormedProposal_ok h).2 with ⟨hcons, hnone⟩ | ⟨tc, hsome, -⟩
  · exact ⟨fun _ => hround.trans hcons.symm, fun _ => hnone⟩
  refine ⟨fun hnone => (by rw [hsome] at hnone; cases hnone), fun heq => ?_⟩
  unfold wellFormedProposal at h
  dsimp only at h
  split at h
  · cases h
  · rw [if_pos (heq.symm.trans hround), hsome] at h
    cases h

/-- The rounds of a proposal that is accepted are right exactly if the certificate of its tip
fits. -/
theorem rounds_iff {em : EpochManager} {p : ProposalMessage T}
    (h : p.validate env validatorsOf em = .ok ()) : p.RoundsRight ↔ p.CertificateFits := by
  obtain ⟨hform, htip, -⟩ := validate_ok h
  obtain ⟨hfit, -, hfresh⟩ := verifyTip_ok htip
  have hlt := qcRound_lt h
  unfold RoundsRight CertificateFits
  rcases tipRoundsFit_ok hfit with
    ⟨hround, hnone⟩ | ⟨nec, hnec, hround, hqc⟩ | ⟨noTip, hnoTip, hround, hqc⟩
  · have hiff := lastRoundTc_eq_none_iff hform hround
    rw [hnone, hiff]
    constructor
    · rintro ⟨-, -, h⟩
      exact h
    · exact fun h => ⟨by omega, by omega, h⟩
  · rw [hnec]
    dsimp only
    rw [hround, hqc]
    constructor
    · rintro ⟨hqc, hle, heq | hagain⟩
      · exact ⟨hqc, .inl heq⟩
      · exact ⟨hqc, .inr ⟨hle, hagain⟩⟩
    · rintro ⟨hqc, heq | ⟨hle, hagain⟩⟩
      · exact ⟨hqc, heq.le, .inl heq⟩
      · exact ⟨hqc, hle, .inr hagain⟩
  · -- the certificate has been verified, so its QC is of an earlier round
    rw [hnoTip] at hfresh
    have hqcRound := TcOk.qcRound_lt (verifyTcWith_eq_ok.mp hfresh)
    change noTip.highQc.getRound < noTip.round at hqcRound
    rw [hnoTip, hround, ← hqc]
    constructor
    · rintro ⟨-, hle, heq | hagain⟩
      · exact .inl heq
      · exact .inr ⟨hle, hagain⟩
    · rintro (heq | ⟨hle, hagain⟩)
      · exact ⟨by omega, heq.le, .inl heq⟩
      · exact ⟨by omega, hle, .inr hagain⟩

end ProposalMessage

namespace Ideal

/-- How the committee verifies. -/
def verifying : EpochToValidators :=
  epochToValidators soleLeader epochs fun _ => some (committee, keys)

theorem rounds_iff_ideal : (proposal 1 (tip 0 1 genesisQc 1 0 none) none).RoundsRight := by
  have hvalid : (proposal 1 (tip 0 1 genesisQc 1 0 none) none).validate soleLeader verifying epochs
      = .ok () := rfl
  exact (ProposalMessage.rounds_iff hvalid).mpr (.inl rfl)

/-- A certificate of no endorsement for the round 5. -/
def nec : NoEndorsementCertificate types :=
  let msg : NoEndorsement := { epoch := 1, round := 5, tipQcRound := 0 }
  { msg, signatures := aggregate [0, 1, 2] (.noEndorsement msg) }

/-- A block of the round 5 is accepted in the round 1. -/
theorem later_block_accepted :
    (proposal 1 (tip 0 5 genesisQc 1 0 (some (.nec nec))) none).validate soleLeader verifying epochs
      = .ok () ∧
    ¬(proposal 1 (tip 0 5 genesisQc 1 0 (some (.nec nec))) none).RoundsRight :=
  ⟨rfl, fun h => absurd h.2.1 (by decide)⟩

end Ideal

end MonadBft
