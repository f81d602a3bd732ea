import MonadBft.Aggregation
import MonadBft.Reports

/-!
# The epoch of the pacemaker

The pacemaker looks up the epoch of a round when it enters the round, and keeps it. The
epoch schedule changes when a boundary block is committed: the next epoch then starts
`epochStartDelay` rounds after the round of the block. The two agree as long as no round
from there on is entered before the block is committed (`epochsAhead`), and then every
timeout names the epoch that the schedule gives its round, also later on.

A boundary block that arrives late, by block sync, is committed after the round in which
its epoch change takes effect. The pacemaker then stays in the old epoch
(`Run.epoch_behind`).
-/

namespace MonadBft

open List Ideal

variable {T : Types} {env : Env T}

/-- The rounds of the certificates that an event has or completes. -/
def Event.rounds (e : Event env) : List ℕ :=
  e.certificates.map RoundCertificate.round ++ e.collected?.toList

/-- The rounds in which a node can be when it handles an event. -/
def Node.roundsWith (n : Node env) (e : Event env) : List ℕ :=
  n.getCurrentRound :: e.rounds.map (· + 1)

/-- The epoch changes that blocks of the node or of the event bring about all lie ahead. -/
def epochsAhead : Condition env := fun _ n e =>
  ∀ h ∈ n.headers ++ e.headers, isBoundaryBlock h.seqNum n.epochManager.epochLength = true →
    ∀ round ∈ n.roundsWith e, round < h.blockRound + n.epochManager.epochStartDelay

instance (ctx : Ctx env) (n : Node env) (e : Event env) : Decidable (epochsAhead ctx n e) :=
  inferInstanceAs (Decidable (∀ h ∈ n.headers ++ e.headers, _ → ∀ round ∈ n.roundsWith e, _))

theorem EpochManager.scheduleEpochStart_config {em em' : EpochManager} {blockNum blockRound : ℕ}
    (h : em.scheduleEpochStart blockNum blockRound = .ok em') :
    em'.epochLength = em.epochLength ∧ em'.epochStartDelay = em.epochStartDelay := by
  unfold scheduleEpochStart insertEpochStart at h
  split at h
  · split at h
    · cases h
      exact ⟨rfl, rfl⟩
    · split at h
      · cases h
        exact ⟨rfl, rfl⟩
      · cases h
  · cases h
    exact ⟨rfl, rfl⟩

section Steps

variable {ctx : Ctx env} {e : Event env} {n n' : Node env} {a : List (Act env)}

theorem Origin.round_mem {cert : RoundCertificate T} (h : Origin ctx e n.pacemaker cert) :
    cert.round ∈ e.rounds := by
  cases h with
  | carried hmem => exact mem_append_left _ (mem_map_of_mem hmem)
  | votes hround =>
    refine mem_append_right _ ?_
    rw [hround]
    exact mem_singleton_self _
  | @timeouts author m _ _ tc he _ _ hnew _ =>
    obtain ⟨-, hround, -, -⟩ := TimeoutCertificate.new_eq_ok.mp hnew
    refine mem_append_right _ ?_
    rw [he, RoundCertificate.round, hround]
    exact mem_singleton_self _

/-- What a step can do to blocks, the configuration of epochs and the round. -/
theorem Step.frame (h : Step ctx e n a n') :
    (∀ header ∈ n'.headers, header ∈ n.headers ∨ header ∈ e.headers) ∧
      n'.epochManager.epochLength = n.epochManager.epochLength ∧
      n'.epochManager.epochStartDelay = n.epochManager.epochStartDelay ∧
      n'.getCurrentRound ∈ n.roundsWith e := by
  have hsame : n.getCurrentRound ∈ n.roundsWith e := mem_cons_self
  cases h with
  | quiet hq _ =>
    refine ⟨hq.headers, by rw [hq.epochManager], by rw [hq.epochManager], ?_⟩
    rw [Node.getCurrentRound, hq.pacemaker]
    exact hsame
  | commit _ hem =>
    obtain ⟨hlength, hdelay⟩ := EpochManager.scheduleEpochStart_config hem
    exact ⟨fun _ hh => .inl hh, hlength, hdelay, hsame⟩
  | @certificate cert _ ho hc =>
    rcases certificate_spec ctx hc with ⟨-, hn', -⟩ | ⟨-, epoch, -, hn', -⟩ <;> rw [hn']
    · exact ⟨fun _ hh => .inl hh, rfl, rfl, hsame⟩
    · refine ⟨fun _ hh => .inl hh, rfl, rfl, mem_cons_of_mem _ ?_⟩
      exact mem_map.mpr ⟨cert.round, ho.round_mem, rfl⟩
  | timeout hto =>
    rw [(timeout_spec ctx hto).1]
    exact ⟨fun _ hh => .inl hh, rfl, rfl, hsame⟩
  | drop hshrunk =>
    refine ⟨fun _ hh => .inl hh, rfl, rfl, ?_⟩
    simp only [Node.getCurrentRound, Pacemaker.getCurrentRound, hshrunk.highCertificate]
    exact hsame
  | store _ _ _ => exact ⟨fun _ hh => .inl hh, rfl, rfl, hsame⟩
  | vote _ _ _ => exact ⟨fun _ hh => .inl hh, rfl, rfl, hsame⟩
  | send _ _ => exact ⟨fun _ hh => .inl hh, rfl, rfl, hsame⟩
  | timerFired => exact ⟨fun _ hh => .inl hh, rfl, rfl, hsame⟩
  | noEndorse _ _ _ _ _ _ => exact ⟨fun _ hh => .inl hh, rfl, rfl, hsame⟩

theorem Step.epochsAhead (h : Step ctx e n a n') (hn : epochsAhead ctx n e) :
    epochsAhead ctx n' e := by
  obtain ⟨hheaders, hlength, hdelay, hround⟩ := h.frame
  intro header hheader hboundary round hr
  rw [hlength] at hboundary
  rw [hdelay]
  have hold : header ∈ n.headers ++ e.headers := by
    rcases mem_append.mp hheader with hh | hh
    · exact mem_append.mpr (hheaders header hh)
    · exact mem_append_right _ hh
  refine hn header hold hboundary round ?_
  rcases mem_cons.mp hr with rfl | hr
  · exact hround
  · exact mem_cons_of_mem _ hr

/-- The schedule does not change for rounds up to the current one. -/
theorem Step.getEpoch_eq (h : Step ctx e n a n') (hn : MonadBft.epochsAhead ctx n e) {round : ℕ}
    (hround : round ≤ n.getCurrentRound) :
    n'.epochManager.getEpoch round = n.epochManager.getEpoch round := by
  cases h with
  | quiet hq _ => rw [hq.epochManager]
  | @commit block _ hblock hem =>
    refine EpochManager.getEpoch_scheduleEpochStart hem fun hboundary => ?_
    exact hround.trans_lt (hn block.header (mem_append_left _ hblock) hboundary
      n.getCurrentRound mem_cons_self)
  | certificate _ _ => rfl
  | timeout _ => rfl
  | drop _ => rfl
  | store _ _ _ => rfl
  | vote _ _ _ => rfl
  | send _ _ => rfl
  | timerFired => rfl
  | noEndorse _ _ _ _ _ _ => rfl

/-- The pacemaker has the epoch that the schedule gives the current round. -/
def Node.EpochCurrent (n : Node env) : Prop :=
  n.epochManager.getEpoch n.getCurrentRound = some n.getCurrentEpoch

theorem Step.epochCurrent (h : Step ctx e n a n') (hn : MonadBft.epochsAhead ctx n e)
    (hcurrent : n.EpochCurrent) : n'.EpochCurrent := by
  have hkeep : ∀ round ≤ n.getCurrentRound,
      n'.epochManager.getEpoch round = n.epochManager.getEpoch round := fun _ => h.getEpoch_eq hn
  have hsame : n'.getCurrentRound = n.getCurrentRound → n'.getCurrentEpoch = n.getCurrentEpoch →
      n'.EpochCurrent := by
    intro hround hepoch
    unfold Node.EpochCurrent
    rw [hround, hepoch, hkeep _ le_rfl]
    exact hcurrent
  cases h with
  | quiet hq _ =>
    exact hsame (by rw [Node.getCurrentRound, hq.pacemaker])
      (by rw [Node.getCurrentEpoch, hq.pacemaker])
  | certificate _ hc =>
    rcases certificate_spec ctx hc with ⟨-, hn', -⟩ | ⟨-, epoch, hepoch, hn', -⟩ <;> rw [hn']
    · exact hcurrent
    · exact hepoch
  | timeout hto =>
    rw [(timeout_spec ctx hto).1]
    exact hcurrent
  | drop hshrunk =>
    refine hsame ?_ hshrunk.currentEpoch
    simp only [Node.getCurrentRound, Pacemaker.getCurrentRound, hshrunk.highCertificate]
  | commit _ _ => exact hsame rfl rfl
  | store _ _ _ => exact hsame rfl rfl
  | vote _ _ _ => exact hsame rfl rfl
  | send _ _ => exact hsame rfl rfl
  | timerFired => exact hsame rfl rfl
  | noEndorse _ _ _ _ _ _ => exact hsame rfl rfl

end Steps

namespace Ideal

/-- Node 1 gets the three blocks of the short epochs in their rounds, and times out in the
fifth round, which is in the second epoch. -/
def timelyEvents : List (Ctx soleLeader × Event soleLeader) :=
  [(member 1 10, .message 0 (.proposal (proposal 2 tipTwo (some tcOne)))),
    (member 1 10, .message 0 (.proposal (proposal 3 nextTip none))),
    (member 1 10, .message 0 (.proposal (proposal 4 lastTip none))),
    (member 1 10, .message 0 (.advanceRound ⟨.qc lastQc⟩)),
    (member 1 10, .timeoutExpiry 5)]

def timelyRun : List (Entry soleLeader) × Node soleLeader :=
  (execute (fun ctx n e => decide (epochsAhead ctx n e)) timelyEvents shortEpochNode).get
    (by decide +kernel)

theorem run_timelyRun : Run 1 epochsAhead shortEpochNode timelyRun.1 timelyRun.2 :=
  Run.of_get (fun _ _ _ => of_decide_eq_true) (by simp [timelyEvents, member]) _

/-- Node 1 enters the fifth round without the blocks, and gets them there. -/
def behindEvents : List (Ctx soleLeader × Event soleLeader) :=
  [(member 1 10, .message 0 (.advanceRound ⟨.qc lastQc⟩)),
    (member 1 10, .blockSync ⟨headerId lastTip.blockHeader, 1⟩ lastBlocks)]

def behindRun : List (Entry soleLeader) × Node soleLeader :=
  (execute (fun _ _ _ => true) behindEvents shortEpochNode).get (by decide +kernel)

end Ideal

section Runs

variable {id : NodeId} {em : EpochManager} {root : RootInfo T} {cert : RoundCertificate T}
  {n₀ n : Node env} {log : List (Entry env)}

/-- What holds along a run: the epoch of the pacemaker and of every timeout is the one of
the schedule, and so it stays while the last event is handled. -/
structure EpochHistory (log : List (Entry env)) (n : Node env) : Prop where
  current : n.EpochCurrent
  timeouts : ∀ m ∈ timeoutsIn log, m.tminfo.round ≤ n.getCurrentRound ∧
    n.epochManager.getEpoch m.tminfo.round = some m.tminfo.epoch
  ahead : ∀ ctx log' e cmds, log = log' ++ [⟨e, cmds⟩] → epochsAhead ctx n e

theorem EpochHistory.step {ctx : Ctx env} {e : Event env} {cmds : List (ConsensusCommand env)}
    {a : List (Act env)} {n' : Node env} (h : EpochHistory (log ++ [⟨e, cmds⟩]) n)
    (hs : Step ctx e n a n') : EpochHistory (log ++ [⟨e, cmds ++ commandsOf a⟩]) n' := by
  have hahead := h.ahead ctx log e cmds rfl
  refine ⟨hs.epochCurrent hahead h.current, fun m hm => ?_, ?_⟩
  · have hold : m.tminfo.round ≤ n.getCurrentRound ∧
        n.epochManager.getEpoch m.tminfo.round = some m.tminfo.epoch := by
      rcases mem_timeoutsIn_snoc.mp hm with hm | hm
      · exact h.timeouts m hm
      · rw [hs.timeout_eq hm]
        exact ⟨le_rfl, h.current⟩
    refine ⟨hold.1.trans hs.round_le, ?_⟩
    rw [hs.getEpoch_eq hahead hold.1]
    exact hold.2
  · intro ctx' log' e' cmds' heq
    obtain ⟨-, hlast⟩ := append_inj' heq rfl
    obtain ⟨rfl, -⟩ : e = e' ∧ _ := by simpa using hlast
    exact hs.epochsAhead hahead

/-- **The pacemaker's epoch follows the schedule.** In every run in which the epoch changes
of pending blocks lie ahead, after every handler the pacemaker has the epoch that the
schedule gives the current round, and every timeout sent names the epoch that the schedule
gives its round. -/
theorem Run.epoch_current (hnew : Node.new env em root cert = .ok n₀)
    (hrun : Run id epochsAhead n₀ log n) :
    n.epochManager.getEpoch n.getCurrentRound = some n.getCurrentEpoch ∧
      ∀ m ∈ timeoutsIn log, n.epochManager.getEpoch m.tminfo.round = some m.tminfo.epoch := by
  have hstart : EpochHistory [] n₀ := by
    obtain ⟨epoch, hepoch, rfl⟩ := Node.new_ok hnew
    exact ⟨hepoch, by simp [timeoutsIn], by simp⟩
  obtain ⟨-, h⟩ := hrun.history (I := fun log _ n => EpochHistory log n) (Node.inv_new hnew) hstart
    (by
      intro ctx log acts n e _ hC h
      refine ⟨h.current, by simpa [timeoutsIn, timeoutsBy] using h.timeouts, ?_⟩
      intro ctx' log' e' cmds' heq
      obtain ⟨-, hlast⟩ := append_inj' heq rfl
      obtain ⟨rfl, -⟩ : e = e' ∧ _ := by simpa using hlast
      exact hC)
    (fun _ _ _ h hs => h.step hs)
  exact ⟨h.current, fun m hm => (h.timeouts m hm).2⟩

theorem Run.epoch_current_timelyRun :
    timelyRun.2.getCurrentEpoch = 2 ∧ (timeoutsIn timelyRun.1).length = 1 ∧
    timelyRun.2.epochManager.getEpoch timelyRun.2.getCurrentRound =
      some timelyRun.2.getCurrentEpoch ∧
    ∀ m ∈ timeoutsIn timelyRun.1,
      timelyRun.2.epochManager.getEpoch m.tminfo.round = some m.tminfo.epoch :=
  ⟨by decide +kernel, by decide +kernel, Run.epoch_current new_shortEpochNode run_timelyRun⟩

/-- A late block sync leaves the pacemaker in the first epoch, in a round of the second. -/
theorem Run.epoch_behind :
    Node.new Ideal.soleLeader Ideal.shortEpochs Ideal.root (.qc Ideal.genesisQc) =
      .ok Ideal.shortEpochNode ∧
    Run 1 anyEvent Ideal.shortEpochNode Ideal.behindRun.1 Ideal.behindRun.2 ∧
    Ideal.behindRun.2.getCurrentRound = 5 ∧ Ideal.behindRun.2.getCurrentEpoch = 1 ∧
    behindRun.2.epochManager.getEpoch 5 = some 2 :=
  ⟨new_shortEpochNode, Run.of_get (fun _ _ _ _ => trivial) (by simp [behindEvents, member]) _,
    by decide +kernel, by decide +kernel, by decide +kernel⟩

end Runs

end MonadBft
