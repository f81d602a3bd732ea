import MonadBft.Pacemaker

/-!
# Collecting votes and no-endorsements

A leader collects the signatures on each vote of a round, and on each no-endorsement,
until those of a supermajority aggregate. Signatures are checked only then: the ones
that turn out invalid are dropped with their senders, and the rest is tried again
(`aggregateSignatures`). Votes and no-endorsements are collected alike (`collect`); a
no-endorsement certificate is also kept for the proposal that will carry it.
-/

namespace MonadBft

open Assoc

variable {T : Types} (env : Env T)

/-- Signatures by sender. -/
abbrev Signatures (T : Types) := List (NodeId × T.SignatureType)

/-- Aggregate the signatures once they are those of a supermajority, dropping invalid
ones. Each failed attempt drops a sender. -/
def aggregateSignatures (validators : ValidatorSet) (mapping : ValidatorMapping)
    (msg : SigningMessage T) : ℕ → Signatures T → List NodeId →
    Except Panic (Option T.SignatureCollection × Signatures T × List NodeId)
  | 0, _, _ => .error .aggregationLoop
  | fuel + 1, sigs, invalid =>
    match validators.hasSuperMajorityVotes (sigs.map Prod.fst) with
    | .error _ => .error .repeatedAddresses
    | .ok false => .ok (none, sigs, invalid)
    | .ok true =>
      match env.newCollection sigs mapping msg with
      | .ok sct => .ok (some sct, sigs, invalid)
      | .error (.invalidSignaturesCreate bad) =>
        aggregateSignatures validators mapping msg fuel
          (sigs.filter fun s => decide (s.1 ∉ invalid ++ bad.map Prod.fst))
          (invalid ++ bad.map Prod.fst)
      | .error _ => .error .unexpectedSignatureError

variable (T) in
/-- What is collected in one round: signatures by what they sign, and the senders of
invalid ones. -/
structure RoundCollection (κ : Type) where
  pending : List (κ × Signatures T)
  invalid : List NodeId

def RoundCollection.empty (κ : Type) : RoundCollection T κ := ⟨[], []⟩

/-- Store a signature under `key` and try to aggregate. Signatures of senders of invalid
ones are ignored. -/
def collect {κ : Type} [DecidableEq κ] (validators : ValidatorSet) (mapping : ValidatorMapping)
    (state : RoundCollection T κ) (key : κ) (msg : SigningMessage T) (author : NodeId)
    (sig : T.SignatureType) :
    Except Panic (Option T.SignatureCollection × RoundCollection T κ) :=
  let sigs := (get? state.pending key).getD []
  if author ∈ state.invalid then
    .ok (none, { state with pending := Assoc.set state.pending key sigs })
  else
    let sigs := Assoc.insert sigs author sig
    match aggregateSignatures env validators mapping msg (sigs.length + 1) sigs state.invalid with
    | .error e => .error e
    | .ok (sct, sigs, invalid) => .ok (sct, ⟨Assoc.set state.pending key sigs, invalid⟩)

/-! ## Votes -/

variable (T)

/-- Votes by round, for the rounds from `earliestRound` on. -/
structure VoteState where
  pendingVotes : List (ℕ × RoundCollection T (Vote T))
  earliestRound : ℕ

/-- No-endorsements by round, and the certificates made of them. -/
structure NoEndorsementState where
  pendingNoEndorsements : List (ℕ × RoundCollection T ℕ × Option (NoEndorsementCertificate T))
  earliestRound : ℕ

variable {T}

namespace VoteState

def new (round : ℕ) : VoteState T := ⟨[], round⟩

/-- Store a vote. Once a QC is made, no second one is for that round. -/
def processVote (vs : VoteState T) (author : NodeId) (m : VoteMessage T)
    (validators : ValidatorSet) (mapping : ValidatorMapping) :
    Except Panic (Option (QuorumCertificate T) × VoteState T) :=
  let round := m.vote.round
  if round < vs.earliestRound then .ok (none, vs)
  else
    match collect env validators mapping
      ((get? vs.pendingVotes round).getD (.empty _)) m.vote (.vote m.vote) author m.sig with
    | .error e => .error e
    | .ok (none, state) =>
      .ok (none, { vs with pendingVotes := Assoc.insert vs.pendingVotes round state })
    | .ok (some sct, state) =>
      .ok (some { info := m.vote, signatures := sct },
        { pendingVotes := Assoc.insert vs.pendingVotes round state, earliestRound := round + 1 })

def startNewRound (vs : VoteState T) (newRound : ℕ) : VoteState T where
  earliestRound := newRound
  pendingVotes := vs.pendingVotes.filter fun e => decide (newRound ≤ e.1)

end VoteState

namespace NoEndorsementState

def new (round : ℕ) : NoEndorsementState T := ⟨[], round⟩

/-- Store a no-endorsement, and the certificate once there is one. -/
def processNoEndorsement (ns : NoEndorsementState T) (author : NodeId)
    (m : NoEndorsementMessage T) (validators : ValidatorSet) (mapping : ValidatorMapping) :
    Except Panic (Option (NoEndorsementCertificate T) × NoEndorsementState T) :=
  let round := m.msg.round
  if round < ns.earliestRound then .ok (none, ns)
  else
    let state := (get? ns.pendingNoEndorsements round).getD (.empty _, none)
    match collect env validators mapping state.1 m.msg.tipQcRound (.noEndorsement m.msg) author
      m.signature with
    | .error e => .error e
    | .ok (none, state₁) =>
      .ok (none, { ns with
        pendingNoEndorsements := Assoc.insert ns.pendingNoEndorsements round (state₁, state.2) })
    | .ok (some sct, state₁) =>
      if state.2.isSome then .error .certificateExists
      else
        let nec := { msg := m.msg, signatures := sct }
        .ok (some nec,
          { pendingNoEndorsements := Assoc.insert ns.pendingNoEndorsements round (state₁, some nec)
            earliestRound := round + 1 })

def startNewRound (ns : NoEndorsementState T) (newRound : ℕ) : NoEndorsementState T where
  earliestRound := newRound
  pendingNoEndorsements := ns.pendingNoEndorsements.filter fun e => decide (newRound ≤ e.1)

def getNec (ns : NoEndorsementState T) (round : ℕ) : Option (NoEndorsementCertificate T) :=
  (get? ns.pendingNoEndorsements round).bind Prod.snd

end NoEndorsementState

/-! ## What is made of the signatures -/

section Specs

variable {env} {validators : ValidatorSet} {mapping : ValidatorMapping} {msg : SigningMessage T}
  {author : NodeId} {panic : Panic}

theorem aggregateSignatures_error {fuel : ℕ} {sigs : Signatures T} {invalid : List NodeId}
    (h : aggregateSignatures env validators mapping msg fuel sigs invalid = .error panic) :
    panic.isAssertion = false ∧ panic ≠ .certificateExists := by
  fun_induction aggregateSignatures env validators mapping msg fuel sigs invalid with
  | case5 _ _ _ _ _ _ ih => exact ih h
  | case3 => cases h
  | case4 => cases h
  | _ =>
    cases h
    exact ⟨rfl, nofun⟩

theorem collect_error {κ : Type} [DecidableEq κ] {state : RoundCollection T κ} {key : κ}
    {sig : T.SignatureType}
    (h : collect env validators mapping state key msg author sig = .error panic) :
    panic.isAssertion = false ∧ panic ≠ .certificateExists := by
  unfold collect at h
  dsimp only at h
  split at h
  · cases h
  split at h
  next hagg =>
    cases h
    exact aggregateSignatures_error hagg
  · cases h

namespace VoteState

variable {vs : VoteState T} {m : VoteMessage T}

/-- A QC is for the vote that completed it. -/
theorem info_of_processVote {vs' : VoteState T} {qc : QuorumCertificate T}
    (h : vs.processVote env author m validators mapping = .ok (some qc, vs')) :
    qc.info = m.vote := by
  unfold processVote at h
  dsimp only at h
  split at h
  · simp at h
  split at h
  · cases h
  · simp at h
  · cases h
    rfl

theorem processVote_error {panic : Panic}
    (h : vs.processVote env author m validators mapping = .error panic) :
    panic.isAssertion = false := by
  unfold processVote at h
  dsimp only at h
  split at h
  · cases h
  split at h
  next hcol =>
    cases h
    exact (collect_error hcol).1
  · cases h
  · cases h

end VoteState

namespace NoEndorsementState

variable {ns ns' : NoEndorsementState T} {m : NoEndorsementMessage T}
  {onec : Option (NoEndorsementCertificate T)}

theorem getD_getNec (ns : NoEndorsementState T) (round : ℕ) :
    ((get? ns.pendingNoEndorsements round).getD (.empty _, none)).2 = ns.getNec round := by
  unfold getNec
  cases get? ns.pendingNoEndorsements round <;> rfl

/-- A no-endorsement is stale, or it is stored, or it completes the first certificate. -/
theorem processNoEndorsement_ok
    (h : ns.processNoEndorsement env author m validators mapping = .ok (onec, ns')) :
    (onec = none ∧ ns' = ns) ∨ ns.earliestRound ≤ m.msg.round ∧ ∃ state,
      (onec = none ∧ ns' = { ns with
        pendingNoEndorsements := Assoc.insert ns.pendingNoEndorsements m.msg.round
          (state, ns.getNec m.msg.round) }) ∨
      ∃ nec, nec.msg = m.msg ∧ onec = some nec ∧ ns' =
        ⟨Assoc.insert ns.pendingNoEndorsements m.msg.round (state, some nec), m.msg.round + 1⟩ := by
  unfold processNoEndorsement at h
  dsimp only at h
  rw [getD_getNec] at h
  split at h
  · cases h
    exact .inl ⟨rfl, rfl⟩
  next hround =>
  refine .inr ⟨not_lt.mp hround, ?_⟩
  split at h
  · cases h
  next state _ =>
    cases h
    exact ⟨state, .inl ⟨rfl, rfl⟩⟩
  next sct state _ =>
    split at h
    · cases h
    · cases h
      exact ⟨state, .inr ⟨_, rfl, rfl, rfl⟩⟩

theorem processNoEndorsement_error {panic : Panic}
    (h : ns.processNoEndorsement env author m validators mapping = .error panic) :
    panic.isAssertion = false ∧ (panic = .certificateExists →
      ns.earliestRound ≤ m.msg.round ∧ (ns.getNec m.msg.round).isSome) := by
  unfold processNoEndorsement at h
  dsimp only at h
  rw [getD_getNec] at h
  split at h
  · cases h
  next hround =>
  split at h
  next hcol =>
    cases h
    obtain ⟨hpanic, hne⟩ := collect_error hcol
    exact ⟨hpanic, fun heq => absurd heq hne⟩
  · cases h
  · split at h
    next hsome =>
      cases h
      exact ⟨rfl, fun _ => ⟨not_lt.mp hround, hsome⟩⟩
    · cases h

/-- The certificate kept for a round is one of that round. -/
def Keyed (ns : NoEndorsementState T) : Prop :=
  ∀ e ∈ ns.pendingNoEndorsements, ∀ nec, e.2.2 = some nec → nec.msg.round = e.1

theorem keyed_new (round : ℕ) : (new round : NoEndorsementState T).Keyed := nofun

theorem Keyed.startNewRound (h : ns.Keyed) (round : ℕ) : (ns.startNewRound round).Keyed :=
  fun e he => h e (List.mem_filter.mp he).1

theorem Keyed.getNec (h : ns.Keyed) {round : ℕ} {nec : NoEndorsementCertificate T}
    (hget : ns.getNec round = some nec) : nec.msg.round = round := by
  obtain ⟨state, hstate, hnec⟩ := Option.bind_eq_some_iff.mp hget
  exact h _ (mem_of_get? hstate) nec hnec

theorem Keyed.processNoEndorsement (hk : ns.Keyed)
    (h : ns.processNoEndorsement env author m validators mapping = .ok (onec, ns')) :
    ns'.Keyed := by
  rcases processNoEndorsement_ok h with
    ⟨-, rfl⟩ | ⟨-, state, ⟨-, rfl⟩ | ⟨nec, hmsg, -, rfl⟩⟩
  · exact hk
  · intro e he nec hnec
    rcases mem_insert.mp he with rfl | ⟨he, -⟩
    · exact hk.getNec hnec
    · exact hk e he nec hnec
  · intro e he nec' hnec
    rcases mem_insert.mp he with rfl | ⟨he, -⟩
    · rw [← Option.some.inj hnec, hmsg]
    · exact hk e he nec' hnec

end NoEndorsementState

end Specs

end MonadBft
