import MonadBft.Assoc
import MonadBft.Safety

/-!
# Rounds, timeouts and timeout certificates

The pacemaker keeps the certificate that brought the node into its current round, and
the timeouts of that round received so far. `processCertificate` enters a round,
`localTimeoutRound` prepares the node's own timeout, and `processRemoteTimeout`
collects timeouts: with more than a third of the stake the node times out as well,
and with a supermajority it aggregates a timeout certificate, dropping the senders of
invalid signatures until none is left.

`processCertificate_ok`, `localTimeoutRound_ok` and `processRemoteTimeout_ok` say what
they do; `aggregateTimeouts_ok` that a certificate is made of pending timeouts of a
supermajority.
-/

namespace MonadBft

open List

variable {T : Types} (env : Env T)

/-! ## Building timeouts and timeout certificates -/

/-- A timeout carries a vote for its tip if that is safe. -/
def TimeoutMessage.new (nodeId : NodeId) (tminfo : TimeoutInfo) (highExtend : HighExtend T)
    (safeToVote : Bool) (lastRoundCertificate : Option (RoundCertificate T)) :
    TimeoutMessage T where
  tminfo
  timeoutSignature := env.sign nodeId (.timeout tminfo)
  highExtend :=
    match highExtend with
    | .qc qc => .qc qc
    | .tip tip =>
      .tip tip (if safeToVote then
        some (env.sign nodeId (.vote { id := env.getId tip.blockHeader
                                       round := tminfo.round, epoch := tminfo.epoch }))
        else none)
  lastRoundCertificate

@[simp] theorem TimeoutMessage.toHighExtend_new (nodeId : NodeId) (tminfo : TimeoutInfo)
    (high : HighExtend T) (safe : Bool) (cert : Option (RoundCertificate T)) :
    (TimeoutMessage.new env nodeId tminfo high safe cert).highExtend.toHighExtend = high := by
  cases high <;> rfl

/-- Signatures grouped by what they sign. -/
abbrev TimeoutGroups (T : Types) := List (TimeoutInfo × List (NodeId × T.SignatureType))

/-- The timeouts grouped by what they sign. -/
def groupTimeouts (timeouts : List (NodeId × TimeoutMessage T)) : TimeoutGroups T :=
  Assoc.group (fun t => t.2.tminfo) (fun t => (t.1, t.2.timeoutSignature)) timeouts

/-- The highest tip or QC reported, starting from the genesis QC. -/
def highestExtend (timeouts : List (NodeId × TimeoutMessage T)) : HighExtend T :=
  timeouts.foldl
    (fun highest t =>
      if t.2.highExtend.toHighExtend.gt highest then t.2.highExtend.toHighExtend else highest)
    (.qc env.genesisQc)

def aggregateGroups (mapping : ValidatorMapping) :
    TimeoutGroups T → Except (SignatureCollectionError T) (List (HighTipRoundSigColTuple T))
  | [] => .ok []
  | (info, sigs) :: groups => do
    let sct ← env.newCollection sigs mapping (.timeout info)
    let tuples ← aggregateGroups mapping groups
    pure ({ highQcRound := info.highQcRound, highTipRound := info.highTipRound, sigs := sct } ::
      tuples)

def TimeoutCertificate.new (epoch round : ℕ) (timeouts : List (NodeId × TimeoutMessage T))
    (mapping : ValidatorMapping) :
    Except (SignatureCollectionError T) (TimeoutCertificate T) := do
  let tipRounds ← aggregateGroups env mapping (env.groupOrder (groupTimeouts timeouts))
  pure { epoch, round, tipRounds, highExtend := highestExtend env timeouts }

section Built

variable {env} {epoch round : ℕ} {timeouts : List (NodeId × TimeoutMessage T)}
  {mapping : ValidatorMapping} {tc : TimeoutCertificate T}

theorem TimeoutCertificate.new_eq_ok :
    TimeoutCertificate.new env epoch round timeouts mapping = .ok tc ↔
      tc.epoch = epoch ∧ tc.round = round ∧ tc.highExtend = highestExtend env timeouts ∧
        aggregateGroups env mapping (env.groupOrder (groupTimeouts timeouts)) =
          .ok tc.tipRounds := by
  unfold TimeoutCertificate.new
  rw [bind_eq_ok]
  constructor
  · rintro ⟨tipRounds, hagg, h⟩
    cases h
    exact ⟨rfl, rfl, rfl, hagg⟩
  · rintro ⟨rfl, rfl, hhigh, hagg⟩
    exact ⟨tc.tipRounds, hagg, by rw [← hhigh]; rfl⟩

/-- What a new timeout certificate extends is the genesis QC, or was reported and is
above everything reported. -/
theorem highestExtend_spec (timeouts : List (NodeId × TimeoutMessage T)) :
    (highestExtend env timeouts = .qc env.genesisQc ∨
        ∃ t ∈ timeouts, highestExtend env timeouts = t.2.highExtend.toHighExtend) ∧
      ∀ t ∈ timeouts, t.2.highExtend.rank ≤ (highestExtend env timeouts).rank := by
  induction timeouts using List.reverseRecOn with
  | nil => simp [highestExtend]
  | append_singleton ts t ih =>
    obtain ⟨hmem, hle⟩ := ih
    have hsnoc : highestExtend env (ts ++ [t]) =
        if t.2.highExtend.toHighExtend.gt (highestExtend env ts) then t.2.highExtend.toHighExtend
        else highestExtend env ts := by
      unfold highestExtend
      rw [foldl_append]
      rfl
    rw [hsnoc]
    split
    next hgt =>
      have hlt : (highestExtend env ts).rank < t.2.highExtend.rank := of_decide_eq_true hgt
      refine ⟨.inr ⟨t, by simp, rfl⟩, fun u hu => ?_⟩
      rcases mem_append.mp hu with hu | hu
      · exact (hle u hu).trans hlt.le
      · rw [mem_singleton.mp hu]
        exact le_rfl
    next hgt =>
      have hge : t.2.highExtend.rank ≤ (highestExtend env ts).rank :=
        not_lt.mp fun hlt => hgt (decide_eq_true hlt)
      refine ⟨?_, fun u hu => ?_⟩
      · rcases hmem with h | ⟨u, hu, h⟩
        · exact .inl h
        · exact .inr ⟨u, by simp [hu], h⟩
      · rcases mem_append.mp hu with hu | hu
        · exact hle u hu
        · rwa [mem_singleton.mp hu]

/-- A certificate of timeouts on QCs before `round` extends such a QC. -/
theorem qcRound_highestExtend_lt {round : ℕ} (hround : 0 < round)
    (h : ∀ t ∈ timeouts, t.2.highExtend.getQc.getRound < round) :
    (highestExtend env timeouts).getQc.getRound < round := by
  rcases (@highestExtend_spec T env timeouts).1 with hext | ⟨t, ht, hext⟩
  · rw [hext]
    exact hround
  · rw [hext]
    exact h t ht

end Built

/-! ## The pacemaker -/

/-- Whether an honest node is known to have timed out in the current round. -/
inductive PhaseHonest where
  | zero
  | one
  deriving DecidableEq

variable (T)

structure Pacemaker where
  currentEpoch : ℕ
  /-- The certificate that brought the node into its current round. -/
  highCertificate : RoundCertificate T
  /-- Timeouts of the current round, by sender. -/
  pendingTimeouts : List (NodeId × TimeoutMessage T)
  invalidTimeoutSenders : List NodeId
  phase : PhaseHonest

inductive PacemakerCommand where
  | enterRound (epoch round : ℕ) (highCertificate : RoundCertificate T)
  | prepareTimeout (tminfo : TimeoutInfo) (highExtend : HighExtend T) (safeToVote : Bool)
      (lastRoundCertificate : Option (RoundCertificate T))
  | schedule (round duration : ℕ)
  | scheduleReset

namespace Pacemaker

variable {T}

def new (em : EpochManager) (highCertificate : RoundCertificate T) : Except Panic (Pacemaker T) :=
  match em.getEpoch (highCertificate.round + 1) with
  | none => .error .epochUnavailable
  | some currentEpoch =>
    .ok { currentEpoch, highCertificate, pendingTimeouts := [], invalidTimeoutSenders := []
          phase := .zero }

variable (p : Pacemaker T) (s : Safety T)

def getCurrentRound : ℕ := p.highCertificate.round + 1

def getRoundTimer (round : ℕ) : ℕ := env.delta * 3 + env.votePace round + env.delta

/-- Enter the round after `certificate`, unless the node is there already. -/
def processCertificate (em : EpochManager) (certificate : RoundCertificate T) :
    Except Panic (Pacemaker T × Safety T × List (PacemakerCommand T)) :=
  if certificate.round ≤ p.highCertificate.round then .ok (p, s, [])
  else
    match em.getEpoch (certificate.round + 1) with
    | none => .error .epochUnavailable
    | some currentEpoch =>
      .ok ({ currentEpoch, highCertificate := certificate, pendingTimeouts := []
             invalidTimeoutSenders := [], phase := .zero },
        s.processCertificate certificate,
        [.enterRound currentEpoch (certificate.round + 1) certificate,
          .schedule (certificate.round + 1) (getRoundTimer env (certificate.round + 1))])

/-- What the node's timeout extends: its high tip, or the QC of its last certificate. -/
def highExtend : HighExtend T :=
  match s.maybeHighTip with
  | some tip => .tip tip
  | none => .qc p.highCertificate.getQc

/-- What the node signs when it times out. -/
def timeoutInfo : TimeoutInfo where
  epoch := p.currentEpoch
  round := p.getCurrentRound
  highTipRound :=
    match p.highExtend s with
    | .tip tip => tip.blockHeader.blockRound
    | .qc _ => GENESIS_ROUND
  highQcRound := (p.highExtend s).getQc.getRound

/-- The certificate of the round before, unless the timeout's QC is of that round. -/
def lastRoundCertificate : Option (RoundCertificate T) :=
  if (p.highExtend s).getQc.getRound + 1 = p.getCurrentRound then none
  else some p.highCertificate

def localTimeoutRound : Except Panic (Safety T × List (PacemakerCommand T)) :=
  match s.timeout p.getCurrentRound with
  | .error e => .error e
  | .ok (s', safeToIncludeVote) =>
    .ok (s', [.scheduleReset,
      .prepareTimeout (p.timeoutInfo s') (p.highExtend s') safeToIncludeVote
        (p.lastRoundCertificate s'),
      .schedule p.getCurrentRound (getRoundTimer env p.getCurrentRound)])

def processLocalTimeout : Except Panic (Pacemaker T × Safety T × List (PacemakerCommand T)) :=
  (p.localTimeoutRound env s).map fun r => ({ p with phase := .one }, r.1, r.2)

/-- Store a timeout, in the place of an earlier one of the same sender. -/
def insertTimeout (author : NodeId) (m : TimeoutMessage T) : Pacemaker T :=
  { p with pendingTimeouts := Assoc.insert p.pendingTimeouts author m }

/-- Forget the timeouts of senders of invalid signatures. -/
def handleInvalidTimeout (invalid : List (NodeId × T.SignatureType)) : Pacemaker T :=
  { p with
    pendingTimeouts := p.pendingTimeouts.filter fun t => decide (t.1 ∉ invalid.map Prod.fst)
    invalidTimeoutSenders := p.invalidTimeoutSenders ++ invalid.map Prod.fst }

def pendingSenders : List NodeId := p.pendingTimeouts.map Prod.fst

/-- The loop that aggregates a timeout certificate. Each failed attempt drops a sender,
so there are at most as many as pending timeouts. -/
def aggregateTimeouts (em : EpochManager) (validators : ValidatorSet) (mapping : ValidatorMapping)
    (epoch round : ℕ) : ℕ → Pacemaker T → Safety T →
    Except Panic (Pacemaker T × Safety T × List (PacemakerCommand T))
  | 0, _, _ => .error .aggregationLoop
  | fuel + 1, p, s =>
    if p.phase = .one then
      match validators.hasSuperMajorityVotes p.pendingSenders with
      | .error _ => .error .repeatedAddresses
      | .ok false => .ok (p, s, [])
      | .ok true =>
        match TimeoutCertificate.new env epoch round p.pendingTimeouts mapping with
        | .ok tc =>
          match p.processCertificate env s em (.tc tc) with
          | .error e => .error e
          | .ok (p', s', cmds) =>
            if p'.phase = .zero then .ok (p', s', cmds) else .error .phaseNotZero
        | .error (.invalidSignaturesCreate invalid) =>
          aggregateTimeouts em validators mapping epoch round fuel
            (p.handleInvalidTimeout invalid) s
        | .error _ => .error .unexpectedSignatureError
    else .ok (p, s, [])

/-- With timeouts of more than a third of the stake, time out as well. -/
def joinTimeout (validators : ValidatorSet) :
    Except Panic (Pacemaker T × Safety T × List (PacemakerCommand T)) :=
  if p.phase = .zero then
    match validators.hasHonestVote p.pendingSenders with
    | .error _ => .error .repeatedAddresses
    | .ok false => .ok (p, s, [])
    | .ok true => p.processLocalTimeout env s
  else .ok (p, s, [])

/-- A timeout of the current round is stored. It may make the node time out, and it may
complete a timeout certificate. -/
def processRemoteTimeout (em : EpochManager) (validators : ValidatorSet)
    (mapping : ValidatorMapping) (author : NodeId) (m : TimeoutMessage T) :
    Except Panic (Pacemaker T × Safety T × List (PacemakerCommand T)) :=
  if m.tminfo.round < p.getCurrentRound then .ok (p, s, [])
  else if m.tminfo.round ≠ p.getCurrentRound then .error .timeoutRoundMismatch
  else if author ∈ p.invalidTimeoutSenders then .ok (p, s, [])
  else
    match (p.insertTimeout author m).joinTimeout env s validators with
    | .error e => .error e
    | .ok (p₁, s₁, cmds) =>
      match aggregateTimeouts env em validators mapping m.tminfo.epoch m.tminfo.round
        (p₁.pendingTimeouts.length + 1) p₁ s₁ with
      | .error e => .error e
      | .ok (p₂, s₂, cmds') => .ok (p₂, s₂, cmds ++ cmds')

/-! ## What the operations do -/

section Specs

variable {env p s} {em : EpochManager} {validators : ValidatorSet} {mapping : ValidatorMapping}
  {p' : Pacemaker T} {s' : Safety T} {cmds : List (PacemakerCommand T)}
  {cert : RoundCertificate T} {author : NodeId} {m : TimeoutMessage T} {panic : Panic}

/-- The pacemaker right after entering the round that follows `cert`. -/
def entered (epoch : ℕ) (cert : RoundCertificate T) : Pacemaker T where
  currentEpoch := epoch
  highCertificate := cert
  pendingTimeouts := []
  invalidTimeoutSenders := []
  phase := .zero

/-- A certificate is ignored, or the node enters the round after it. -/
theorem processCertificate_ok (h : p.processCertificate env s em cert = .ok (p', s', cmds)) :
    (cert.round ≤ p.highCertificate.round ∧ p' = p ∧ s' = s ∧ cmds = []) ∨
      (p.highCertificate.round < cert.round ∧ ∃ epoch, em.getEpoch (cert.round + 1) = some epoch ∧
        p' = entered epoch cert ∧ s' = s.processCertificate cert ∧
        cmds = [.enterRound epoch (cert.round + 1) cert,
          .schedule (cert.round + 1) (getRoundTimer env (cert.round + 1))]) := by
  unfold processCertificate at h
  split at h
  next hle =>
    cases h
    exact .inl ⟨hle, rfl, rfl, rfl⟩
  next hlt =>
    split at h
    · cases h
    next epoch hepoch =>
      cases h
      exact .inr ⟨not_le.mp hlt, epoch, hepoch, rfl, rfl, rfl⟩

theorem processCertificate_error (h : p.processCertificate env s em cert = .error panic) :
    panic = .epochUnavailable := by
  unfold processCertificate at h
  split at h
  · cases h
  · split at h
    · exact (Except.error.inj h).symm
    · cases h

/-- A node that times out has not voted in a later round, and reports its high tip or the
QC of its last certificate. -/
theorem localTimeoutRound_ok (h : p.localTimeoutRound env s = .ok (s', cmds)) :
    s.highestVote ≤ p.getCurrentRound ∧ s' = { s with highestVote := p.getCurrentRound } ∧
      cmds = [.scheduleReset,
        .prepareTimeout (p.timeoutInfo s) (p.highExtend s)
          (s.safeToIncludeVote p.getCurrentRound) (p.lastRoundCertificate s),
        .schedule p.getCurrentRound (getRoundTimer env p.getCurrentRound)] := by
  unfold localTimeoutRound at h
  split at h
  · cases h
  next s₁ safe hto =>
    obtain ⟨hle, rfl, rfl⟩ := Safety.timeout_eq_ok.mp hto
    simp only [Except.ok.injEq, Prod.mk.injEq] at h
    exact ⟨hle, h.1.symm, h.2.symm⟩

theorem localTimeoutRound_error (h : p.localTimeoutRound env s = .error panic) :
    p.getCurrentRound < s.highestVote := by
  unfold localTimeoutRound Safety.timeout at h
  split at h
  next e hto =>
    split at hto
    · cases hto
    next hlt => exact not_le.mp hlt
  · cases h

theorem processLocalTimeout_ok (h : p.processLocalTimeout env s = .ok (p', s', cmds)) :
    p' = { p with phase := .one } ∧ p.localTimeoutRound env s = .ok (s', cmds) := by
  unfold processLocalTimeout at h
  rcases hr : p.localTimeoutRound env s with e | r
  · simp [hr, Except.map] at h
  · simp only [hr, Except.map, Except.ok.injEq, Prod.mk.injEq] at h
    exact ⟨h.1.symm, by rw [← h.2.1, ← h.2.2]⟩

theorem processLocalTimeout_error (h : p.processLocalTimeout env s = .error panic) :
    p.getCurrentRound < s.highestVote := by
  unfold processLocalTimeout at h
  rcases hr : p.localTimeoutRound env s with e | r
  · exact localTimeoutRound_error hr
  · simp [hr, Except.map] at h

/-- The same round, with at most the timeouts pending before. -/
structure Shrunk (p p' : Pacemaker T) : Prop where
  highCertificate : p'.highCertificate = p.highCertificate
  currentEpoch : p'.currentEpoch = p.currentEpoch
  pending : p'.pendingTimeouts.Sublist p.pendingTimeouts

theorem Shrunk.refl (p : Pacemaker T) : Shrunk p p := ⟨rfl, rfl, List.Sublist.refl _⟩

theorem Shrunk.trans {p₁ p₂ p₃ : Pacemaker T} (h : Shrunk p₁ p₂) (h' : Shrunk p₂ p₃) :
    Shrunk p₁ p₃ :=
  ⟨h'.1.trans h.1, h'.2.trans h.2, h'.3.trans h.3⟩

theorem Shrunk.handleInvalidTimeout (p : Pacemaker T) (invalid : List (NodeId × T.SignatureType)) :
    Shrunk p (p.handleInvalidTimeout invalid) :=
  ⟨rfl, rfl, filter_sublist⟩

/-- The loop drops timeouts, and ends without a certificate or with one made of the
timeouts that are left, which are a supermajority. -/
theorem aggregateTimeouts_ok {epoch round : ℕ} :
    ∀ {fuel : ℕ} {p : Pacemaker T} {s : Safety T},
      aggregateTimeouts env em validators mapping epoch round fuel p s = .ok (p', s', cmds) →
      ∃ p₁, Shrunk p p₁ ∧ ((p' = p₁ ∧ s' = s ∧ cmds = []) ∨
        ∃ tc, TimeoutCertificate.new env epoch round p₁.pendingTimeouts mapping = .ok tc ∧
          validators.hasSuperMajorityVotes p₁.pendingSenders = .ok true ∧
          p₁.processCertificate env s em (.tc tc) = .ok (p', s', cmds))
  | 0, p, s, h => by simp [aggregateTimeouts] at h
  | fuel + 1, p, s, h => by
    unfold aggregateTimeouts at h
    split at h
    · split at h
      · cases h
      · cases h
        exact ⟨_, .refl _, .inl ⟨rfl, rfl, rfl⟩⟩
      next hmaj =>
        split at h
        next tc htc =>
          split at h
          · cases h
          next p₁ s₁ cmds₁ hcert =>
            split at h
            · cases h
              exact ⟨p, .refl p, .inr ⟨tc, htc, hmaj, hcert⟩⟩
            · cases h
        · obtain ⟨p₁, hshrunk, hres⟩ := aggregateTimeouts_ok h
          exact ⟨p₁, (Shrunk.handleInvalidTimeout _ _).trans hshrunk, hres⟩
        · cases h
    · cases h
      exact ⟨_, .refl _, .inl ⟨rfl, rfl, rfl⟩⟩

theorem joinTimeout_ok (h : p.joinTimeout env s validators = .ok (p', s', cmds)) :
    (p' = p ∧ s' = s ∧ cmds = []) ∨ p.processLocalTimeout env s = .ok (p', s', cmds) := by
  unfold joinTimeout at h
  split at h
  · split at h
    · cases h
    · cases h
      exact .inl ⟨rfl, rfl, rfl⟩
    · exact .inr h
  · cases h
    exact .inl ⟨rfl, rfl, rfl⟩

/-- What handling a timeout can do: nothing, or store it in the current round, time out
in that round, drop timeouts, and enter the next round by a certificate made of those
that are left. -/
theorem processRemoteTimeout_ok
    (h : p.processRemoteTimeout env s em validators mapping author m = .ok (p', s', cmds)) :
    (p' = p ∧ s' = s ∧ cmds = []) ∨
      (m.tminfo.round = p.getCurrentRound ∧ ∃ p₁ s₁ cmds₁ cmds₂, cmds = cmds₁ ++ cmds₂ ∧
        (p.insertTimeout author m).joinTimeout env s validators = .ok (p₁, s₁, cmds₁) ∧
        aggregateTimeouts env em validators mapping m.tminfo.epoch m.tminfo.round
          (p₁.pendingTimeouts.length + 1) p₁ s₁ = .ok (p', s', cmds₂)) := by
  unfold processRemoteTimeout at h
  split at h
  · cases h
    exact .inl ⟨rfl, rfl, rfl⟩
  split at h
  · cases h
  next hround =>
    split at h
    · cases h
      exact .inl ⟨rfl, rfl, rfl⟩
    split at h
    · cases h
    next p₁ s₁ cmds₁ hjoin =>
      split at h
      · cases h
      next p₂ s₂ cmds₂ hagg =>
        cases h
        exact .inr ⟨not_not.mp hround, p₁, s₁, cmds₁, cmds₂, rfl, hjoin, hagg⟩

theorem joinTimeout_error (h : p.joinTimeout env s validators = .error panic)
    (hvote : s.highestVote ≤ p.getCurrentRound) : panic.isAssertion = false := by
  unfold joinTimeout at h
  split at h
  · split at h
    · cases h
      rfl
    · cases h
    · exact absurd (processLocalTimeout_error h) (not_lt.mpr hvote)
  · cases h

theorem aggregateTimeouts_error {epoch round : ℕ} :
    ∀ {fuel : ℕ} {p : Pacemaker T} {s : Safety T},
      aggregateTimeouts env em validators mapping epoch round fuel p s = .error panic →
      panic.isAssertion = false
  | 0, p, s, h => by
    cases h
    rfl
  | fuel + 1, p, s, h => by
    unfold aggregateTimeouts at h
    split at h
    · split at h
      · cases h
        rfl
      · cases h
      · split at h
        · split at h
          next hcert =>
            cases h
            rw [processCertificate_error hcert]
            rfl
          · split at h
            · cases h
            · cases h
              rfl
        · exact aggregateTimeouts_error h
        · cases h
          rfl
    · cases h

/-- A timeout of a round the node has reached trips no assertion. -/
theorem processRemoteTimeout_error
    (h : p.processRemoteTimeout env s em validators mapping author m = .error panic)
    (hround : m.tminfo.round ≤ p.getCurrentRound) (hvote : s.highestVote ≤ p.getCurrentRound) :
    panic.isAssertion = false := by
  unfold processRemoteTimeout at h
  split at h
  · cases h
  split at h
  · omega
  split at h
  · cases h
  split at h
  next hjoin =>
    cases h
    exact joinTimeout_error hjoin hvote
  split at h
  next hagg =>
    cases h
    exact aggregateTimeouts_error hagg
  · cases h

theorem mem_insertTimeout {t : NodeId × TimeoutMessage T} :
    t ∈ (p.insertTimeout author m).pendingTimeouts ↔
      t = (author, m) ∨ (t ∈ p.pendingTimeouts ∧ t.1 ≠ author) :=
  Assoc.mem_insert

end Specs

end Pacemaker

end MonadBft
