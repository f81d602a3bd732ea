import Mathlib.Data.Nat.Notation
import Mathlib.Logic.Function.Basic

/-!
# The role of the secondary raptorcast

A validator broadcasts to full nodes (`Mode.publisher`), any other node listens to validators
(`Mode.client`). The router changes the role of its secondary instance when it learns that the next
epoch is without the node, and when it enters an epoch with it (`MultiRouter.exec`).

Each time it compares two epochs. The role follows the membership as long as the sets are announced
in the epoch before their own and no epoch is skipped (`role_follows_membership`). Otherwise it may
stay wrong for a whole epoch (`role_does_not_follow`).
-/

namespace MonadBft.Router

/-! ## Model -/

/-- `SecondaryRaptorCastModeConfig`. -/
inductive Mode where
  | none
  | client
  | publisher
  deriving DecidableEq

/-- The roles that are enabled. -/
structure Config where
  enablePublisher : Bool
  enableClient : Bool

inductive RouterCommand (N : Type) where
  | addEpochValidatorSet (epoch : ℕ) (validatorSet : List (N × ℕ))
  | updateCurrentRound (epoch round : ℕ)
  /-- The commands that are only passed on. -/
  | other

structure MultiRouter (N : Type) where
  config : Config
  selfNodeId : N
  currentEpoch : ℕ
  epochValidators : ℕ → Option (List N)
  /-- The role that `rc_secondary` was built for. -/
  role : Mode

namespace MultiRouter

variable {N : Type} [DecidableEq N]

def new (selfNodeId : N) (config : Config) (currentEpoch : ℕ)
    (epochValidators : ℕ → Option (List N)) : MultiRouter N :=
  let isCurrentEpochValidator := (epochValidators currentEpoch).any (·.contains selfNodeId)
  { config, selfNodeId, currentEpoch, epochValidators
    role :=
      if isCurrentEpochValidator && config.enablePublisher then .publisher
      else if !isCurrentEpochValidator && config.enableClient then .client
      else .none }

variable (r : MultiRouter N)

def isValidator (epoch : ℕ) : Bool := (r.epochValidators epoch).any (·.contains r.selfNodeId)

def updateRole (newRole : Mode) : MultiRouter N := { r with role := newRole }

/-- The set of an epoch is kept. -/
def insertSet (epoch : ℕ) (validatorSet : List (N × ℕ)) : MultiRouter N :=
  { r with
    epochValidators := Function.update r.epochValidators epoch (some (validatorSet.map Prod.fst)) }

/-- A validator that falls out of the next epoch is demoted. -/
def addEpochValidatorSet (epoch : ℕ) (validatorSet : List (N × ℕ)) : MultiRouter N :=
  let r := r.insertSet epoch validatorSet
  if epoch = r.currentEpoch + 1 ∧ r.isValidator r.currentEpoch ∧
      ¬r.isValidator (r.currentEpoch + 1) then
    r.updateRole (if r.config.enableClient then .client else .none)
  else r

/-- Sets of epochs before the last are forgotten. -/
def retainSets : MultiRouter N :=
  { r with
    epochValidators := fun e => if r.currentEpoch ≤ e + 1 then r.epochValidators e else none }

/-- A full node that enters an epoch as a validator is promoted. -/
def updateCurrentRound (epoch : ℕ) : MultiRouter N :=
  if r.currentEpoch < epoch then
    let isValidatorBefore := r.isValidator r.currentEpoch
    let r := { r with currentEpoch := epoch }
    if ¬isValidatorBefore ∧ r.isValidator r.currentEpoch then
      (r.updateRole (if r.config.enablePublisher then .publisher else .none)).retainSets
    else r.retainSets
  else r

def execCommand : RouterCommand N → MultiRouter N
  | .addEpochValidatorSet epoch validatorSet => r.addEpochValidatorSet epoch validatorSet
  | .updateCurrentRound epoch _ => r.updateCurrentRound epoch
  | .other => r

def exec (commands : List (RouterCommand N)) : MultiRouter N := commands.foldl execCommand r

end MultiRouter

/-- The role of a node that should publish, or should not, if it is enabled. -/
def Config.modeOf (config : Config) (publishes : Bool) : Mode :=
  if publishes then if config.enablePublisher then .publisher else .none
  else if config.enableClient then .client else .none

namespace MultiRouter

variable {N : Type} [DecidableEq N] (r : MultiRouter N)

/-- The node is known to be missing from the set of an epoch. -/
def missing (epoch : ℕ) : Bool := (r.epochValidators epoch).any fun set => !set.contains r.selfNodeId

/-- The node is a validator and is not known to fall out. -/
def publishes : Bool := r.isValidator r.currentEpoch && !r.missing (r.currentEpoch + 1)

def Follows : Prop := r.role = r.config.modeOf r.publishes

/-- A set is announced once, and before its epoch is entered. -/
def Admissible : RouterCommand N → Prop
  | .addEpochValidatorSet epoch _ => r.epochValidators epoch = none
  | .updateCurrentRound epoch _ => r.currentEpoch ≤ epoch → (r.epochValidators epoch).isSome = true
  | .other => True

/-- A set is announced in the epoch before its own, and no epoch is skipped. -/
def Timely : RouterCommand N → Prop
  | .addEpochValidatorSet epoch _ => epoch = r.currentEpoch + 1
  | .updateCurrentRound epoch _ => epoch ≤ r.currentEpoch + 1
  | .other => True

/-- A validator is not known to fall out, and no set after the next one is known. -/
structure TimelyStart : Prop where
  stays : r.isValidator r.currentEpoch = true → r.missing (r.currentEpoch + 1) = false
  later : ∀ epoch, r.currentEpoch + 1 < epoch → r.epochValidators epoch = none

/-- Each command meets the condition in the state it finds. -/
def Along (C : MultiRouter N → RouterCommand N → Prop) :
    MultiRouter N → List (RouterCommand N) → Prop
  | _, [] => True
  | r, command :: commands => C r command ∧ Along C (r.execCommand command) commands

/-! ## The role along a run -/

variable {r}

structure Inv (r : MultiRouter N) : Prop where
  follows : r.Follows
  later : ∀ epoch, r.currentEpoch + 1 < epoch → r.epochValidators epoch = none

theorem publishes_of_none (h : r.epochValidators (r.currentEpoch + 1) = none) :
    r.publishes = r.isValidator r.currentEpoch := by
  simp [publishes, missing, h]

theorem publishes_of_isSome (h : (r.epochValidators (r.currentEpoch + 1)).isSome = true) :
    r.publishes = (r.isValidator r.currentEpoch && r.isValidator (r.currentEpoch + 1)) := by
  obtain ⟨set, hset⟩ := Option.isSome_iff_exists.mp h
  simp [publishes, missing, isValidator, hset]

theorem inv_new {selfNodeId : N} {config : Config} {currentEpoch : ℕ}
    {epochValidators : ℕ → Option (List N)}
    (h : (new selfNodeId config currentEpoch epochValidators).TimelyStart) :
    (new selfNodeId config currentEpoch epochValidators).Inv := by
  refine ⟨?_, h.later⟩
  have hrole : (new selfNodeId config currentEpoch epochValidators).role = config.modeOf
      ((new selfNodeId config currentEpoch epochValidators).isValidator currentEpoch) := by
    unfold Config.modeOf new isValidator
    cases (epochValidators currentEpoch).any (·.contains selfNodeId) <;> simp
  refine hrole.trans (congrArg config.modeOf ?_)
  have hstays := h.stays
  unfold publishes
  grind [new]

theorem Inv.addEpochValidatorSet (h : r.Inv) {validatorSet : List (N × ℕ)}
    (hnone : r.epochValidators (r.currentEpoch + 1) = none) :
    (r.addEpochValidatorSet (r.currentEpoch + 1) validatorSet).Inv := by
  have hrole : r.role = r.config.modeOf (r.isValidator r.currentEpoch) :=
    publishes_of_none hnone ▸ h.follows
  unfold MultiRouter.addEpochValidatorSet
  generalize hr' : r.insertSet (r.currentEpoch + 1) validatorSet = r'
  obtain ⟨hconfig, hepoch, hrole'⟩ : r'.config = r.config ∧ r'.currentEpoch = r.currentEpoch ∧
      r'.role = r.role := hr' ▸ ⟨rfl, rfl, rfl⟩
  have hvalidator : r'.isValidator r'.currentEpoch = r.isValidator r.currentEpoch := by
    simp [← hr', isValidator, insertSet]
  have hpublishes := publishes_of_isSome (r := r') (by simp [← hr', insertSet])
  have hlater : ∀ epoch, r'.currentEpoch + 1 < epoch → r'.epochValidators epoch = none := by
    intro epoch hlt
    rw [hepoch] at hlt
    rw [← hr']
    exact (Function.update_of_ne (Nat.ne_of_gt hlt) _ _).trans (h.later epoch hlt)
  dsimp only
  split
  next hout =>
    refine ⟨?_, hlater⟩
    change _ = r'.config.modeOf r'.publishes
    rw [hpublishes, Bool.eq_false_iff.mpr hout.2.2, Bool.and_false]
    rfl
  next hin =>
    refine ⟨?_, hlater⟩
    rw [Follows, hrole', hrole, hconfig, hpublishes, hvalidator]
    congr 1
    grind

/-- No set after the current one is known. -/
theorem inv_retainSets (hrole : r.role = r.config.modeOf (r.isValidator r.currentEpoch))
    (hlater : ∀ epoch, r.currentEpoch < epoch → r.epochValidators epoch = none) :
    r.retainSets.Inv := by
  refine ⟨?_, fun epoch hepoch => ?_⟩
  · have hnone : r.retainSets.epochValidators (r.retainSets.currentEpoch + 1) = none := by
      simp [retainSets, hlater (r.currentEpoch + 1) (Nat.lt_succ_self _)]
    rw [Follows, publishes_of_none hnone]
    simpa [isValidator, retainSets] using hrole
  · simp [retainSets, hlater epoch (Nat.lt_of_succ_lt hepoch)]

theorem Inv.updateCurrentRound (h : r.Inv) {epoch : ℕ}
    (hknown : r.currentEpoch ≤ epoch → (r.epochValidators epoch).isSome = true)
    (hnext : epoch ≤ r.currentEpoch + 1) : (r.updateCurrentRound epoch).Inv := by
  unfold MultiRouter.updateCurrentRound
  split
  · obtain rfl : epoch = r.currentEpoch + 1 := by omega
    have hrole := h.follows
    rw [Follows, publishes_of_isSome (hknown (by omega))] at hrole
    dsimp only
    split
    next hin =>
      refine inv_retainSets ?_ h.later
      change _ = r.config.modeOf (r.isValidator (r.currentEpoch + 1))
      rw [show r.isValidator (r.currentEpoch + 1) = true from hin.2]
      rfl
    next hin =>
      refine inv_retainSets ?_ h.later
      refine hrole.trans (congrArg r.config.modeOf ?_)
      grind [isValidator]
  · exact h

theorem Inv.exec (h : r.Inv) {commands : List (RouterCommand N)}
    (hcommands : Along (fun r command => r.Admissible command ∧ r.Timely command) r commands) :
    (r.exec commands).Inv := by
  induction commands generalizing r with
  | nil => exact h
  | cons command commands ih =>
    obtain ⟨⟨hadmissible, htimely⟩, hrest⟩ := hcommands
    refine ih ?_ hrest
    cases command with
    | addEpochValidatorSet epoch validatorSet =>
      obtain rfl : epoch = r.currentEpoch + 1 := htimely
      exact h.addEpochValidatorSet hadmissible
    | updateCurrentRound epoch round => exact h.updateCurrentRound hadmissible htimely
    | other => exact h

/-- **The role follows the membership.** After any number of calls of `exec`, if each set is
announced once and in the epoch before its own, and no epoch is skipped. -/
theorem role_follows_membership {selfNodeId : N} {config : Config} {currentEpoch : ℕ}
    {epochValidators : ℕ → Option (List N)} {calls : List (List (RouterCommand N))}
    (hstart : (new selfNodeId config currentEpoch epochValidators).TimelyStart)
    (hcalls : Along (fun r command => r.Admissible command ∧ r.Timely command)
      (new selfNodeId config currentEpoch epochValidators) calls.flatten) :
    (calls.foldl exec (new selfNodeId config currentEpoch epochValidators)).Follows := by
  have h := (inv_new hstart).exec hcalls
  rw [exec, List.foldl_flatten] at h
  exact h.follows

/-- Node 0 is a validator of the first epoch. -/
def started : MultiRouter ℕ :=
  new 0 ⟨true, true⟩ 1 fun epoch => if epoch = 1 then some [0] else none

theorem role_follows_membership_demoted :
    ([[.addEpochValidatorSet 2 [(1, 5)]], [.updateCurrentRound 2 9]].foldl exec started).Follows ∧
    ([[.addEpochValidatorSet 2 [(1, 5)]], [.updateCurrentRound 2 9]].foldl exec started).role =
      .client := by
  refine ⟨role_follows_membership ⟨fun _ => rfl, fun epoch hepoch => if_neg ?_⟩
    ⟨⟨rfl, rfl⟩, ⟨fun _ => rfl, Nat.le_refl 2⟩, trivial⟩, by decide⟩
  exact Nat.ne_of_gt (Nat.lt_of_succ_lt hepoch)

/-- The role is wrong after an epoch was skipped, if the node is no longer a validator or was
demoted before, when a set is known two epochs ahead, and when the next set is known at the
start. -/
theorem role_does_not_follow :
    (∃ commands, Along Admissible started commands ∧ ¬(started.exec commands).Follows ∧
      (started.exec commands).currentEpoch = 3 ∧ (started.exec commands).role = .publisher) ∧
    (∃ commands, Along Admissible started commands ∧ ¬(started.exec commands).Follows ∧
      (started.exec commands).currentEpoch = 3 ∧ (started.exec commands).role = .client) ∧
    (∃ commands, Along Admissible started commands ∧ ¬(started.exec commands).Follows ∧
      (started.exec commands).currentEpoch = 2) ∧
    ¬((new 0 ⟨true, true⟩ 1 fun epoch => some [epoch - 1]).exec [.other]).Follows := by
  unfold Follows
  refine ⟨⟨[.addEpochValidatorSet 3 [(1, 5)], .updateCurrentRound 3 9], ?_, by decide⟩,
    ⟨[.addEpochValidatorSet 2 [(1, 5)], .addEpochValidatorSet 3 [(0, 5)], .updateCurrentRound 3 9],
      ?_, by decide⟩,
    ⟨[.addEpochValidatorSet 2 [(0, 5)], .addEpochValidatorSet 3 [(1, 5)], .updateCurrentRound 2 9],
      ?_, by decide⟩, by decide⟩
  · exact ⟨rfl, fun _ => rfl, trivial⟩
  · exact ⟨rfl, rfl, fun _ => rfl, trivial⟩
  · exact ⟨rfl, rfl, fun _ => rfl, trivial⟩

end MultiRouter

end MonadBft.Router
