import Mathlib.Data.List.Sort
import MonadBft.Signing

/-!
# The voting rules

`Safety` is what a node remembers so as not to contradict itself: the highest rounds
it voted, declined to endorse, proposed and asked for recovery in, the highest QC round
of a certificate it accepted, and the tip it voted for last, as long as that tip is
above every QC it knows.

Each operation that the code guards by an assertion returns an `Except`, with one
lemma (`vote_eq_ok`, `noEndorse_eq_ok`, `timeout_eq_ok`) that says when it succeeds and
what it changes.
-/

namespace MonadBft

/-- Rounds of proposals remembered so as to drop repetitions. -/
def HANDLED_PROPOSAL_CACHE_SIZE : ℕ := 100

variable (T : Types)

/-- The last round a node declined to endorse a tip in, and that tip. -/
structure HighNoEndorse where
  round : ℕ
  tip : T.BlockId

structure Safety where
  /-- The tip voted for last, if its round is above `highCertificateQcRound`. -/
  maybeHighTip : Option (ConsensusTip T)
  /-- The highest QC round of a certificate accepted so far. -/
  highCertificateQcRound : ℕ
  highestVote : ℕ
  highestNoEndorse : HighNoEndorse T
  highestPropose : ℕ
  highestRecoveryRequest : ℕ
  /-- Rounds of proposals handled, in increasing order. -/
  handledProposals : List ℕ

namespace Safety

variable {T} (env : Env T) (s : Safety T)

/-- A node starts in the round after its certificate, in which it does not vote. -/
def new (highCertificate : RoundCertificate T) (maybeHighTip : Option (ConsensusTip T)) :
    Safety T :=
  let currentRound := highCertificate.round + 1
  { maybeHighTip
    highCertificateQcRound := highCertificate.getQc.getRound
    highestVote := currentRound
    highestNoEndorse := { round := currentRound, tip := env.GENESIS_BLOCK_ID }
    highestPropose := currentRound
    highestRecoveryRequest := currentRound
    handledProposals := [] }

/-- A tip that is not above a known QC is dropped. -/
def dropTip : Safety T :=
  { s with
    maybeHighTip := s.maybeHighTip.filter fun tip =>
      decide (s.highCertificateQcRound < tip.blockHeader.blockRound) }

def processCertificate (certificate : RoundCertificate T) : Safety T :=
  dropTip { s with
    highCertificateQcRound := max s.highCertificateQcRound certificate.getQc.getRound }

/-- Once a TC is declined, only proposals that carry it are voted for in that round. -/
def isSafeToVote (round : ℕ) (lastRoundTcTip : Option T.BlockId) : Bool :=
  if round = s.highestNoEndorse.round ∧ lastRoundTcTip ≠ some s.highestNoEndorse.tip then false
  else decide (s.highestVote < round)

def vote (round : ℕ) (lastRoundTcTip : Option T.BlockId) (tip : ConsensusTip T) :
    Except Panic (Safety T) :=
  if s.isSafeToVote round lastRoundTcTip then
    .ok { s with
      highestVote := round
      maybeHighTip :=
        if s.highCertificateQcRound < tip.blockHeader.blockRound then some tip else none }
  else .error .unsafeVote

def isSafeToNoEndorse (round : ℕ) : Bool :=
  decide (max s.highestNoEndorse.round s.highestVote < round)

def noEndorse (round : ℕ) (tip : T.BlockId) : Except Panic (Safety T) :=
  if s.isSafeToNoEndorse round then .ok { s with highestNoEndorse := { round, tip } }
  else .error .unsafeNoEndorse

/-- Whether a timeout of `round` may carry a vote for the high tip. -/
def safeToIncludeVote (round : ℕ) : Bool :=
  decide (s.highestNoEndorse.round < round) ||
    s.maybeHighTip.any fun tip => decide (tip.blockHeader.blockRound = round)

def timeout (round : ℕ) : Except Panic (Safety T × Bool) :=
  if s.highestVote ≤ round then
    .ok ({ s with highestVote := round }, s.safeToIncludeVote round)
  else .error .unsafeTimeout

def isSafeToPropose (round : ℕ) : Bool := decide (max s.highestPropose s.highestVote < round)

def propose (round : ℕ) : Except Panic (Safety T) :=
  if s.isSafeToPropose round then .ok { s with highestPropose := round }
  else .error .unsafePropose

def isSafeToRecoveryRequest (round : ℕ) : Bool := decide (s.highestRecoveryRequest < round)

def recoveryRequest (round : ℕ) : Except Panic (Safety T) :=
  if s.isSafeToRecoveryRequest round then .ok { s with highestRecoveryRequest := round }
  else .error .unsafeRecoveryRequest

def isSafeToHandleProposal (round : ℕ) : Bool := decide (round ∉ s.handledProposals)

/-- Remember the round, and forget the lowest ones beyond the cache size. -/
def handleProposal (round : ℕ) : Except Panic (Safety T) :=
  if s.isSafeToHandleProposal round then
    let handled := s.handledProposals.orderedInsert (· ≤ ·) round
    .ok { s with handledProposals := handled.drop (handled.length - HANDLED_PROPOSAL_CACHE_SIZE) }
  else .error .unsafeHandleProposal

/-! ## What the operations change -/

variable {env s} {s' : Safety T} {round : ℕ} {cert : RoundCertificate T} {tcTip : Option T.BlockId}
  {tip : ConsensusTip T}

theorem isSafeToVote_eq_true :
    s.isSafeToVote round tcTip = true ↔
      s.highestVote < round ∧
        (round = s.highestNoEndorse.round → tcTip = some s.highestNoEndorse.tip) := by
  unfold isSafeToVote
  split_ifs with h
  · simp only [false_iff, not_and, not_forall]
    exact fun _ => ⟨h.1, h.2⟩
  · simp only [decide_eq_true_eq, iff_self_and]
    intro _ hround
    by_contra hne
    exact h ⟨hround, hne⟩

theorem vote_eq_ok :
    s.vote round tcTip tip = .ok s' ↔
      s.isSafeToVote round tcTip = true ∧
        s' = { s with
          highestVote := round
          maybeHighTip :=
            if s.highCertificateQcRound < tip.blockHeader.blockRound then some tip else none } := by
  unfold vote
  split_ifs with h <;> simp [h, eq_comm]

theorem noEndorse_eq_ok {tip : T.BlockId} :
    s.noEndorse round tip = .ok s' ↔
      (s.highestNoEndorse.round < round ∧ s.highestVote < round) ∧
        s' = { s with highestNoEndorse := { round, tip } } := by
  unfold noEndorse isSafeToNoEndorse
  split_ifs with h
  · simp only [decide_eq_true_eq, sup_lt_iff] at h
    simp [h, eq_comm]
  · simp only [decide_eq_true_eq, sup_lt_iff] at h
    simp [h]

theorem timeout_eq_ok {safe : Bool} :
    s.timeout round = .ok (s', safe) ↔
      s.highestVote ≤ round ∧ s' = { s with highestVote := round } ∧
        safe = s.safeToIncludeVote round := by
  unfold timeout
  split_ifs with h <;> simp [h, eq_comm]

theorem maybeHighTip_processCertificate :
    (s.processCertificate cert).maybeHighTip = some tip ↔
      s.maybeHighTip = some tip ∧
        max s.highCertificateQcRound cert.getQc.getRound < tip.blockHeader.blockRound := by
  simp [processCertificate, dropTip, Option.filter_eq_some_iff]

end Safety

end MonadBft
