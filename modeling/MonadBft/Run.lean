import MonadBft.Handlers
import MonadBft.Ideal

/-!
# Runs of a node

A node starts with `Node.new` and handles valid events one after the other (`Run`). The
log of a run records each event with the commands it produced. A run may be restricted by
a condition on the events and the states in which they arrive.

`Run.history` is the induction rule for runs: an invariant that relates the state to the
log so far and to the acts behind it, and that every step keeps, holds at the end.
-/

namespace MonadBft

variable {T : Types} {env : Env T} {e : Event env}

variable (env) in
/-- An event and the commands produced in handling it. -/
structure Entry where
  event : Event env
  commands : List (ConsensusCommand env)

/-- What a node signs in a run. -/
def signedIn (log : List (Entry env)) : List (SigningMessage T) :=
  log.flatMap fun entry => signedBy entry.commands

variable {log : List (Entry env)} {ctx : Ctx env} {acts : List (Act env)}

/-- The last event signs more. -/
theorem mem_signedIn_snoc {cmds cmds' : List (ConsensusCommand env)} {msg : SigningMessage T} :
    msg ∈ signedIn (log ++ [⟨e, cmds ++ cmds'⟩]) ↔
      msg ∈ signedIn (log ++ [⟨e, cmds⟩]) ∨ msg ∈ signedBy cmds' := by
  simp [signedIn, or_assoc]

/-- The proposals delivered in a run. -/
def proposalsIn (log : List (Entry env)) : List (ProposalMessage T) :=
  log.filterMap fun entry => entry.event.proposal?

theorem proposalsIn_snoc {cmds : List (ConsensusCommand env)} :
    proposalsIn (log ++ [⟨e, cmds⟩]) = proposalsIn log ++ e.proposal?.toList := by
  rcases h : e.proposal? with _ | p <;> simp [proposalsIn, h]

/-- A condition on events, given the state in which they arrive. -/
abbrev Condition (env : Env T) := Ctx env → Node env → Event env → Prop

def anyEvent : Condition env := fun _ _ _ => True

/-- Node `id` handles a valid event that meets the condition. -/
inductive NodeStep (id : NodeId) (C : Condition env) : Node env → List (Entry env) → Node env → Prop
  | handle {ctx : Ctx env} {e : Event env} {n n' : Node env}
      {commands : List (ConsensusCommand env)} :
      ctx.nodeid = id → e.Valid ctx n → C ctx n e →
      Node.handle ctx e n = .ok (⟨⟩, n', commands) → NodeStep id C n [⟨e, commands⟩] n'

abbrev Run (id : NodeId) (C : Condition env) : Node env → List (Entry env) → Node env → Prop :=
  Reach (NodeStep id C)

/-! ## Computing runs -/

instance (ctx : Ctx env) (n : Node env) : (e : Event env) → Decidable (e.Valid ctx n)
  | .message _ _ => inferInstanceAs (Decidable (_ ∧ _))
  | .timeoutExpiry _ => inferInstanceAs (Decidable True)
  | .voteTimer _ => inferInstanceAs (Decidable True)
  | .blockSync _ _ => inferInstanceAs (Decidable True)

/-- Handle events one after the other, if they are valid and pass the test. -/
def execute (test : Ctx env → Node env → Event env → Bool) :
    List (Ctx env × Event env) → Node env → Option (List (Entry env) × Node env)
  | [], n => some ([], n)
  | (ctx, e) :: events, n =>
    if e.Valid ctx n ∧ test ctx n e = true then
      match Node.handle ctx e n with
      | .error _ => none
      | .ok (_, n', commands) =>
        (execute test events n').map fun r => (⟨e, commands⟩ :: r.1, r.2)
    else none

section

variable {id : NodeId} {C : Condition env} {test : Ctx env → Node env → Event env → Bool}
  (htest : ∀ ctx n e, test ctx n e = true → C ctx n e)

include htest

theorem Run.of_execute :
    ∀ {events : List (Ctx env × Event env)} {n n' : Node env} {log : List (Entry env)},
      (∀ event ∈ events, event.1.nodeid = id) → execute test events n = some (log, n') →
      Run id C n log n'
  | [], n, n', log, _, h => by
    obtain ⟨rfl, rfl⟩ : [] = log ∧ n = n' := by simpa [execute] using h
    exact .nil n
  | (ctx, e) :: events, n, n', log, hid, h => by
    unfold execute at h
    split at h
    next hvalid =>
      split at h
      · cases h
      next n₁ commands hhandle =>
        obtain ⟨⟨log', n''⟩, hrest, heq⟩ := Option.map_eq_some_iff.mp h
        obtain ⟨rfl, rfl⟩ : ⟨e, commands⟩ :: log' = log ∧ n'' = n' := by simpa using heq
        have hstep : NodeStep id C n [⟨e, commands⟩] n₁ :=
          .handle (hid (ctx, e) (by simp)) hvalid.1 (htest ctx n e hvalid.2) hhandle
        exact (Reach.single hstep).append
          (Run.of_execute (fun event hevent => hid event (by simp [hevent])) hrest)
    · cases h

theorem Run.of_get {n : Node env} {events : List (Ctx env × Event env)}
    (hid : ∀ event ∈ events, event.1.nodeid = id) (h : (execute test events n).isSome = true) :
    Run id C n ((execute test events n).get h).1 ((execute test events n).get h).2 :=
  Run.of_execute htest hid (Option.some_get h).symm

end

namespace Ideal

/-- Nobody proposes in the first round. -/
def tcOne : TimeoutCertificate types := tc 1 [([0, 1, 2], 0, 0)] (.qc genesisQc)

def tipTwo : ConsensusTip types := tip 0 2 genesisQc 1 0 (some (noTip tcOne))

/-- Node 1 times out in the first round, votes for the block of the second and times out
again. -/
def firstEvents : List (Ctx soleLeader × Event soleLeader) :=
  [(member 1 10, .timeoutExpiry 1),
    (member 1 10, .message 0 (.proposal (proposal 2 tipTwo (some tcOne)))),
    (member 1 10, .timeoutExpiry 2)]

def firstRun : List (Entry soleLeader) × Node soleLeader :=
  (execute (fun _ _ _ => true) firstEvents (genesisNode _)).get (by decide +kernel)

theorem run_firstRun : Run 1 anyEvent (genesisNode _) firstRun.1 firstRun.2 :=
  Run.of_get (fun _ _ _ _ => trivial) (by simp [firstEvents, member]) _

end Ideal

section Start

variable {em : EpochManager} {root : RootInfo T} {cert : RoundCertificate T} {n : Node env}

theorem Node.new_ok (h : Node.new env em root cert = .ok n) :
    ∃ epoch, em.getEpoch (cert.round + 1) = some epoch ∧
      n = { pendingBlockTree := .new root
            voteState := .new (cert.round + 1)
            noEndorsementState := .new (cert.round + 1)
            scheduledVote := none
            safety := .new env cert none
            pacemaker := .entered epoch cert
            blockSyncRequests := []
            canonicalProposedTip := none
            epochManager := em } := by
  unfold Node.new Pacemaker.new at h
  split at h
  · cases h
  next epoch hepoch =>
    cases h
    exact ⟨epoch, hepoch, rfl⟩

theorem Node.inv_new (h : Node.new env em root cert = .ok n) : NodeInv n := by
  obtain ⟨epoch, -, rfl⟩ := Node.new_ok h
  exact ⟨le_rfl, by simp, le_rfl, by simp [Safety.new], fun t ht => (by cases ht),
    List.nodup_nil, NoEndorsementState.keyed_new _⟩

theorem Node.qcInv_new (h : Node.new env em root cert = .ok n)
    (hcert : cert.getQc.getRound ≤ cert.round) : QcInv n := by
  obtain ⟨epoch, -, rfl⟩ := Node.new_ok h
  exact ⟨hcert, Nat.lt_succ_of_le hcert, by simp [Safety.new], fun t ht => (by cases ht)⟩

end Start

variable {id : NodeId} {C : Condition env} {n₀ n n' : Node env} {log : List (Entry env)}

/-- A handler that returns has proceeded by steps. -/
theorem trace_handle {commands : List (ConsensusCommand env)} (hn : NodeInv n)
    (hvalid : e.Valid ctx n) (h : Node.handle ctx e n = .ok (⟨⟩, n', commands)) :
    ∃ acts, commandsOf acts = commands ∧ Trace ctx e n acts n' :=
  (Prog.sat_of_ok (Node.follows_handle hvalid hn) h).1

theorem Trace.inv (hn : NodeInv n) (h : Trace ctx e n acts n') : NodeInv n' :=
  Reach.invariant (fun _ _ _ hn hstep => hstep.inv hn) hn h

theorem Trace.qcInv (he : e.WellFormed) (hn : QcInv n) (h : Trace ctx e n acts n') : QcInv n' :=
  Reach.invariant (fun _ _ _ hn hstep => hstep.qcInv he hn) hn h

theorem Run.inv (hn : NodeInv n₀) (h : Run id C n₀ log n) : NodeInv n := by
  refine Reach.invariant ?_ hn h
  rintro n _ n' hn ⟨-, hvalid, -, hhandle⟩
  obtain ⟨acts, -, htrace⟩ := trace_handle hn hvalid hhandle
  exact htrace.inv hn

theorem Run.qcInv (hn : NodeInv n₀) (hq : QcInv n₀) (h : Run id C n₀ log n) : QcInv n := by
  refine (Reach.invariant (I := fun n => NodeInv n ∧ QcInv n) ?_ ⟨hn, hq⟩ h).2
  rintro n _ n' ⟨hn, hq⟩ ⟨-, hvalid, -, hhandle⟩
  obtain ⟨acts, -, htrace⟩ := trace_handle hn hvalid hhandle
  exact ⟨htrace.inv hn, htrace.qcInv hvalid.wellFormed hq⟩

/-- **No assertion fires.** Whatever a node has been through, the assertions that guard its
votes, no-endorsements, timeouts, proposals, recovery requests and scheduled votes hold in
every handler, on every event that validates. -/
theorem Run.no_assertion {em : EpochManager} {root : RootInfo T} {cert : RoundCertificate T}
    (hnew : Node.new env em root cert = .ok n₀) (hrun : Run id anyEvent n₀ log n) {ctx : Ctx env}
    {e : Event env} (hvalid : e.Valid ctx n) {panic : Panic}
    (hpanic : panic.isAssertion = true) : Node.handle ctx e n ≠ .error panic := by
  intro herr
  have hn := hrun.inv (Node.inv_new hnew)
  have hnot := Prog.sat_of_error (Node.follows_handle hvalid hn) herr
  exact Bool.false_ne_true (hnot.symm.trans hpanic)

theorem Run.no_assertion_firstRun :
    Panic.unsafeTimeout.isAssertion = true ∧
      Node.handle (Ideal.member 1 10) (.timeoutExpiry 2) Ideal.firstRun.2 ≠ .error .unsafeTimeout :=
  ⟨rfl, Run.no_assertion (e := .timeoutExpiry 2) Ideal.new_genesisNode Ideal.run_firstRun trivial rfl⟩

/-- The induction rule for runs. `I log acts n` relates the state to the log, whose last
entry is the event being handled with the commands produced so far, and to all acts. -/
theorem Run.history {I : List (Entry env) → List (Act env) → Node env → Prop}
    (hrun : Run id C n₀ log n) (hn : NodeInv n₀) (hinit : I [] [] n₀)
    (hevent : ∀ {ctx log acts n e}, e.Valid ctx n → C ctx n e → I log acts n →
      I (log ++ [⟨e, []⟩]) acts n)
    (hstep : ∀ {ctx log acts e cmds a n n'}, ctx.nodeid = id → e.WellFormed → NodeInv n →
      I (log ++ [⟨e, cmds⟩]) acts n → Step ctx e n a n' →
      I (log ++ [⟨e, cmds ++ commandsOf a⟩]) (acts ++ a) n') : ∃ acts, I log acts n := by
  have hmain : NodeInv n ∧ ∃ acts, I log acts n := by
    induction hrun with
    | nil => exact ⟨hn, [], hinit⟩
    | @snoc n₁ n₂ log₁ _ _ hr ih =>
      obtain ⟨hn, acts, hI⟩ := ih
      cases hr with
      | @handle ctx e _ _ _ hid hvalid hC hhandle =>
        obtain ⟨acts', rfl, htrace⟩ := trace_handle hn hvalid hhandle
        have hnil : I (log₁ ++ [⟨e, commandsOf []⟩]) (acts ++ []) n₁ := by
          rw [List.append_nil]
          exact hevent hvalid hC hI
        obtain ⟨hn₂, hI₂⟩ := htrace.history
          (I := fun a n => NodeInv n ∧ I (log₁ ++ [⟨e, commandsOf a⟩]) (acts ++ a) n)
          ⟨hn, hnil⟩ (by
            rintro a n a' n' ⟨hn, hI⟩ hs
            rw [commandsOf_append, ← List.append_assoc]
            exact ⟨hs.inv hn, hstep hid hvalid.wellFormed hn hI hs⟩)
        exact ⟨hn₂, _, hI₂⟩
  exact hmain.2

end MonadBft
