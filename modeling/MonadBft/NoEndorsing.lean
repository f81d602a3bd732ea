import MonadBft.Ideal

/-!
# One certificate of no endorsement per round

Once a certificate is made, `earliestRound` moves past its round, so that no second one is made. But
a new round sets `earliestRound` back if the certificate was for a round that is still to come, and
the certificate is kept. The next no-endorsement of its round completes a second one, against the
assertion of `process_no_endorsement` that there is none (`second_certificate`).

As long as no new round sets `earliestRound` back, the assertion holds and no round has two
certificates (`certificates_once`).
-/

namespace MonadBft

open Assoc

variable {T : Types}

namespace NoEndorsementState

/-- What is done to the no-endorsements of a node. -/
inductive Call (T : Types) where
  | processNoEndorsement (author : NodeId) (m : NoEndorsementMessage T)
      (validators : ValidatorSet) (mapping : ValidatorMapping)
  | startNewRound (newRound : ℕ)

/-- The certificates that are made, and the state afterwards. -/
def run (env : Env T) : List (Call T) → NoEndorsementState T →
    Except Panic (List (NoEndorsementCertificate T) × NoEndorsementState T)
  | [], ns => .ok ([], ns)
  | .processNoEndorsement author m validators mapping :: calls, ns => do
    let (nec, ns) ← ns.processNoEndorsement env author m validators mapping
    let (necs, ns) ← run env calls ns
    .ok (nec.toList ++ necs, ns)
  | .startNewRound newRound :: calls, ns => run env calls (ns.startNewRound newRound)

/-- What `handle_no_endorsement_message` admits, after a round was started. -/
def Admitted : ℕ → List (Call T) → Prop
  | _, [] => True
  | started, .processNoEndorsement _ m _ _ :: calls =>
    started ≤ m.msg.round ∧ m.msg.round ≤ started + FUTURE_VOTE_BOUND ∧ Admitted started calls
  | started, .startNewRound newRound :: calls => started ≤ newRound ∧ Admitted newRound calls

/-- A new round does not set `earliestRound` back. -/
def NeverSetBack (env : Env T) : List (Call T) → NoEndorsementState T → Prop
  | [], _ => True
  | .processNoEndorsement author m validators mapping :: calls, ns =>
    match ns.processNoEndorsement env author m validators mapping with
    | .ok (_, ns) => NeverSetBack env calls ns
    | .error _ => True
  | .startNewRound newRound :: calls, ns =>
    ns.earliestRound ≤ newRound ∧ NeverSetBack env calls (ns.startNewRound newRound)

/-- Certificates are those of past rounds. -/
def Sealed (ns : NoEndorsementState T) : Prop :=
  ∀ e ∈ ns.pendingNoEndorsements, e.2.2.isSome → e.1 < ns.earliestRound

variable {env : Env T} {ns ns' : NoEndorsementState T} {m : NoEndorsementMessage T}
  {validators : ValidatorSet} {mapping : ValidatorMapping} {author : NodeId} {round : ℕ}

theorem Sealed.getNec (h : ns.Sealed) (hsome : (ns.getNec round).isSome) :
    round < ns.earliestRound := by
  obtain ⟨nec, hnec⟩ := Option.isSome_iff_exists.mp hsome
  obtain ⟨state, hstate, hsnd⟩ := Option.bind_eq_some_iff.mp hnec
  exact h _ (mem_of_get? hstate) (Option.isSome_of_eq_some hsnd)

theorem Sealed.startNewRound (h : ns.Sealed) (hle : ns.earliestRound ≤ round) :
    (ns.startNewRound round).Sealed :=
  fun e he hsome => (h e (List.mem_filter.mp he).1 hsome).trans_le hle

/-- A certificate is for a round that was not past, and now is. -/
theorem Sealed.processNoEndorsement (h : ns.Sealed) {onec : Option (NoEndorsementCertificate T)}
    (hok : ns.processNoEndorsement env author m validators mapping = .ok (onec, ns')) :
    ns'.Sealed ∧ ns.earliestRound ≤ ns'.earliestRound ∧ ∀ nec ∈ onec,
      ns.earliestRound ≤ nec.msg.round ∧ nec.msg.round < ns'.earliestRound := by
  rcases processNoEndorsement_ok hok with
    ⟨rfl, rfl⟩ | ⟨hround, state, ⟨rfl, rfl⟩ | ⟨nec, hmsg, rfl, rfl⟩⟩
  · exact ⟨h, le_rfl, nofun⟩
  · refine ⟨fun e he hsome => ?_, le_rfl, nofun⟩
    rcases mem_insert.mp he with rfl | ⟨he, -⟩
    · exact h.getNec hsome
    · exact h e he hsome
  · refine ⟨fun e he hsome => ?_, hround.trans (Nat.le_succ _), fun nec' hnec => ?_⟩
    · rcases mem_insert.mp he with rfl | ⟨he, -⟩
      · exact Nat.lt_succ_self _
      · exact (h e he hsome).trans_le (hround.trans (Nat.le_succ _))
    · rw [← Option.some.inj hnec, hmsg]
      exact ⟨hround, Nat.lt_succ_self _⟩

/-- The certificates of a run are for different rounds, none of them past. -/
theorem Sealed.run (calls : List (Call T)) {ns : NoEndorsementState T} (h : ns.Sealed)
    (hcalls : NeverSetBack env calls ns) :
    run env calls ns ≠ .error .certificateExists ∧ ∀ necs ns', run env calls ns = .ok (necs, ns') →
      (∀ nec ∈ necs, ns.earliestRound ≤ nec.msg.round) ∧ (necs.map (·.msg.round)).Nodup := by
  induction calls generalizing ns with
  | nil =>
    refine ⟨nofun, fun necs ns' hok => ?_⟩
    cases hok
    exact ⟨nofun, .nil⟩
  | cons call calls ih =>
    cases call with
    | startNewRound newRound =>
      obtain ⟨hle, hcalls⟩ := hcalls
      obtain ⟨hpanic, hnecs⟩ := ih (h.startNewRound hle) hcalls
      refine ⟨hpanic, fun necs ns' hok => ?_⟩
      exact ⟨fun nec hnec => hle.trans ((hnecs necs ns' hok).1 nec hnec), (hnecs necs ns' hok).2⟩
    | processNoEndorsement author m validators mapping =>
      unfold NoEndorsementState.run
      unfold NeverSetBack at hcalls
      cases hfirst : ns.processNoEndorsement env author m validators mapping with
      | error panic =>
        refine ⟨fun heq => ?_, nofun⟩
        obtain ⟨hround, hsome⟩ := (processNoEndorsement_error hfirst).2 (Except.error.inj heq)
        exact absurd (h.getNec hsome) (not_lt.mpr hround)
      | ok made =>
        obtain ⟨hsealed, hle, hmade⟩ := h.processNoEndorsement hfirst
        rw [hfirst] at hcalls
        obtain ⟨hpanic, hnecs⟩ := ih hsealed hcalls
        rw [except_ok_bind]
        dsimp only
        cases hrest : NoEndorsementState.run env calls made.2 with
        | error panic => exact ⟨fun heq => hpanic (hrest.trans heq), nofun⟩
        | ok rest =>
          obtain ⟨hpast, hnodup⟩ := hnecs _ _ hrest
          refine ⟨nofun, fun necs ns' hok => ?_⟩
          cases hok
          cases hnec : made.1 with
          | none => exact ⟨fun nec hmem => hle.trans (hpast nec hmem), hnodup⟩
          | some nec =>
            obtain ⟨hfrom, hto⟩ := hmade nec hnec
            refine ⟨fun nec' hmem => ?_, List.nodup_cons.mpr ⟨fun hmem => ?_, hnodup⟩⟩
            · rcases List.mem_cons.mp hmem with rfl | hmem
              · exact hfrom
              · exact hle.trans (hpast nec' hmem)
            · obtain ⟨nec', hmem', heq⟩ := List.mem_map.mp hmem
              have hpast' := hpast nec' hmem'
              dsimp only at heq
              omega

/-- In a run in which no new round sets `earliestRound` back, the assertion holds, and no round has
two certificates. -/
theorem certificates_once (env : Env T) (round : ℕ) (calls : List (Call T))
    (hcalls : NeverSetBack env calls (new round)) :
    run env calls (new round) ≠ .error .certificateExists ∧
      ∀ necs ns', run env calls (new round) = .ok (necs, ns') → (necs.map (·.msg.round)).Nodup := by
  have hnew : (new round : NoEndorsementState T).Sealed := nofun
  exact ⟨(hnew.run calls hcalls).1, fun necs ns' hok => ((hnew.run calls hcalls).2 necs ns' hok).2⟩

end NoEndorsementState

namespace Ideal

open NoEndorsementState

/-- A node does not endorse the tip of a round. -/
def unendorsed (node : NodeId) (round : ℕ) : Call types :=
  let msg : NoEndorsement := { epoch := 1, round, tipQcRound := 0 }
  .processNoEndorsement node ⟨msg, (node, digest (.noEndorsement msg))⟩ committee keys

/-- A certificate for the round 2, and then the round 3. -/
def endorsing : List (Call types) :=
  [.startNewRound 2, unendorsed 0 2, unendorsed 1 2, unendorsed 2 2, .startNewRound 3]

theorem certificates_once_ideal : run soleLeader endorsing (new 1) ≠ .error .certificateExists :=
  (certificates_once soleLeader 1 endorsing ⟨by decide, by decide, trivial⟩).1

/-- The certificate for the round 2 is made in the round 1. -/
theorem second_certificate :
    Admitted 1 [unendorsed 0 2, unendorsed 1 2, unendorsed 2 2, .startNewRound 2, unendorsed 3 2] ∧
    run soleLeader
      [unendorsed 0 2, unendorsed 1 2, unendorsed 2 2, .startNewRound 2, unendorsed 3 2] (new 1)
        = .error .certificateExists :=
  ⟨⟨by decide, by decide, by decide, by decide, by decide, by decide, by decide, by decide,
    by decide, trivial⟩, rfl⟩

end Ideal

end MonadBft
