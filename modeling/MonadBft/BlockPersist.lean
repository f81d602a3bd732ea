import Mathlib.Data.Nat.Notation
import MonadBft.FileSystem
import MonadBft.Prog

/-!
# Block files

Headers and bodies of blocks are files named by their ids, and the heads of the chain are
links to header files (`FileBlockPersist`). A file that can be opened is taken for complete
and not written again. A head is replaced by creating a link under a temporary name and
renaming it.

A process works on the directory by calls, and may stop in the middle of one and be started
again (`DirEvent`). If it only ever stops between calls, every call succeeds and what was
written can be read (`DirRun.survives`). A stop inside a call may leave half a file, which
is never completed, or a temporary link, which the next update of that head fails on.
-/

namespace MonadBft

open FileSystem Function List

/-- An encoding that can be decoded. -/
structure Codec (α : Type) where
  encode : α → List UInt8
  decode : List UInt8 → Option α
  decode_encode : ∀ a, decode (encode a) = some a

/-- What is stored: headers and bodies with their ids and encodings. -/
structure Stored where
  Header : Type
  Body : Type
  HeaderId : Type
  BodyId : Type
  [headerIdEq : DecidableEq HeaderId]
  [bodyIdEq : DecidableEq BodyId]
  getId : Header → HeaderId
  getBodyId : Body → BodyId
  header : Codec Header
  body : Codec Body

attribute [instance] Stored.headerIdEq Stored.bodyIdEq

/-- The heads of the chain that are kept as links. -/
inductive Head where
  | proposed
  | voted
  | finalized
  deriving DecidableEq

inductive LedgerPath (S : Stored) where
  | header (id : S.HeaderId)
  | body (id : S.BodyId)
  | head (head : Head)
  | wip (head : Head)
  deriving DecidableEq

variable {S : Stored}

abbrev LedgerDir (S : Stored) := Directory (LedgerPath S)

namespace FileBlockPersist

/-- Write a file, unless it can be opened. -/
def writeUnlessThere (d : LedgerDir S) (path : LedgerPath S) (bytes : List UInt8) :
    List (Op (LedgerPath S)) :=
  match contents d path with
  | some _ => []
  | none => writeFile path bytes

def writeBftHeader (d : LedgerDir S) (block : S.Header) : List (Op (LedgerPath S)) :=
  writeUnlessThere d (.header (S.getId block)) (S.header.encode block)

def writeBftBody (d : LedgerDir S) (body : S.Body) : List (Op (LedgerPath S)) :=
  writeUnlessThere d (.body (S.getBodyId body)) (S.body.encode body)

/-- The file system steps of `update_proposed_head` and its siblings. -/
def updateHead (head : Head) (id : S.HeaderId) : List (Op (LedgerPath S)) :=
  replaceLink (.header id) (.wip head) (.head head)

def readAndDecode {α : Type} (codec : Codec α) (d : LedgerDir S) (path : LedgerPath S) :
    Except IoError α :=
  match contents d path with
  | none => .error .notFound
  | some bytes =>
    match codec.decode bytes with
    | none => .error .other
    | some a => .ok a

def readProposedHeadBftHeader (d : LedgerDir S) : Except IoError S.Header :=
  readAndDecode S.header d (.head .proposed)

def readBftHeader (d : LedgerDir S) (id : S.HeaderId) : Except IoError S.Header :=
  readAndDecode S.header d (.header id)

def readBftBody (d : LedgerDir S) (id : S.BodyId) : Except IoError S.Body :=
  readAndDecode S.body d (.body id)

end FileBlockPersist

open FileBlockPersist

variable (S) in
/-- The calls that change a ledger directory. -/
inductive PersistCall where
  | writeBftHeader (block : S.Header)
  | writeBftBody (body : S.Body)
  | updateHead (head : Head) (id : S.HeaderId)

namespace PersistCall

/-- The file system steps of a call. -/
def steps (d : LedgerDir S) : PersistCall S → List (Op (LedgerPath S))
  | writeBftHeader block => FileBlockPersist.writeBftHeader d block
  | writeBftBody body => FileBlockPersist.writeBftBody d body
  | updateHead head id => FileBlockPersist.updateHead head id

/-- A call that returns, with its result. -/
def run (d : LedgerDir S) (call : PersistCall S) : Except IoError Unit × LedgerDir S :=
  perform (call.steps d) d

/-- What a process leaves that stops after some steps of the call. -/
def stopped (d : LedgerDir S) (call : PersistCall S) (count : ℕ) : LedgerDir S :=
  (perform ((call.steps d).take count) d).2

end PersistCall

variable (S) in
/-- What happens to a ledger directory: a call returns, or the process stops after some
file system steps of a call and is started again. -/
inductive DirEvent where
  | returned (call : PersistCall S) (result : Except IoError Unit)
  | stopped (call : PersistCall S) (count : ℕ)

/-- The process does not stop between the file system steps of a call. -/
def DirEvent.BetweenCalls (d : LedgerDir S) : DirEvent S → Prop
  | returned _ _ => True
  | stopped call count => count = 0 ∨ (call.steps d).length ≤ count

/-- The call is about a head of the chain. -/
def PersistCall.Updates (head : Head) : PersistCall S → Prop
  | updateHead head' _ => head' = head
  | _ => False

def DirEvent.Updates (head : Head) : DirEvent S → Prop
  | returned call _ => call.Updates head
  | stopped call _ => call.Updates head

/-- One event under a condition on where the process stops. -/
inductive DirStep (C : LedgerDir S → DirEvent S → Prop) :
    LedgerDir S → List (DirEvent S) → LedgerDir S → Prop
  | call {d : LedgerDir S} (call : PersistCall S) :
      C d (.returned call (call.run d).1) → DirStep C d [.returned call (call.run d).1] (call.run d).2
  | stop {d : LedgerDir S} (call : PersistCall S) (count : ℕ) :
      C d (.stopped call count) → DirStep C d [.stopped call count] (call.stopped d count)

/-- What happens to a directory, one event after the other. -/
abbrev DirRun (C : LedgerDir S → DirEvent S → Prop) :
    LedgerDir S → List (DirEvent S) → LedgerDir S → Prop :=
  Reach (DirStep C)

/-! ## Complete directories -/

/-- Every file is complete and no temporary link is left. -/
structure CompleteDir (d : LedgerDir S) : Prop where
  header : ∀ id entry, d (.header id) = some entry →
    ∃ block, S.getId block = id ∧ entry = .file (S.header.encode block)
  body : ∀ id entry, d (.body id) = some entry →
    ∃ body, S.getBodyId body = id ∧ entry = .file (S.body.encode body)
  wip : ∀ head, d (.wip head) = none

theorem completeDir_empty : CompleteDir (empty : LedgerDir S) :=
  ⟨fun _ _ h => (by cases h), fun _ _ h => (by cases h), fun _ => rfl⟩

namespace CompleteDir

variable {d : LedgerDir S} (hd : CompleteDir d) {block : S.Header} {id : S.HeaderId}

include hd

theorem readBftHeader (hinj : Injective S.getId) (h : d (.header (S.getId block)) ≠ none) :
    FileBlockPersist.readBftHeader d (S.getId block) = .ok block := by
  obtain ⟨entry, hentry⟩ := Option.ne_none_iff_exists'.mp h
  obtain ⟨block', hid, rfl⟩ := hd.header _ _ hentry
  obtain rfl := hinj hid
  simp [FileBlockPersist.readBftHeader, readAndDecode, contents, hentry, S.header.decode_encode]

/-- A header that is read has the id it is asked for by. -/
theorem getId_of_readBftHeader (h : FileBlockPersist.readBftHeader d id = .ok block) :
    S.getId block = id := by
  unfold FileBlockPersist.readBftHeader readAndDecode contents at h
  cases hentry : d (.header id) with
  | none => simp [hentry] at h
  | some entry =>
    obtain ⟨block', hid, rfl⟩ := hd.header _ _ hentry
    simp only [hentry, S.header.decode_encode] at h
    rwa [← Except.ok.inj h]

theorem readBftBody (hinj : Injective S.getBodyId) {body : S.Body}
    (h : d (.body (S.getBodyId body)) ≠ none) :
    FileBlockPersist.readBftBody d (S.getBodyId body) = .ok body := by
  obtain ⟨entry, hentry⟩ := Option.ne_none_iff_exists'.mp h
  obtain ⟨body', hid, rfl⟩ := hd.body _ _ hentry
  obtain rfl := hinj hid
  simp [FileBlockPersist.readBftBody, readAndDecode, contents, hentry, S.body.decode_encode]

/-- A head reads as the header it is linked to. -/
theorem readProposedHeadBftHeader (h : d (.head .proposed) = some (.link (.header id))) :
    FileBlockPersist.readProposedHeadBftHeader d = FileBlockPersist.readBftHeader d id := by
  unfold FileBlockPersist.readProposedHeadBftHeader FileBlockPersist.readBftHeader readAndDecode
  have hcontents : contents d (.head .proposed) = contents d (.header id) := by
    cases hentry : d (.header id) with
    | none => simp [contents, h, hentry]
    | some entry =>
      obtain ⟨block, -, rfl⟩ := hd.header _ _ hentry
      simp [contents, h, hentry]
  rw [hcontents]

end CompleteDir

/-! ## What a call does to a complete directory -/

section Written

variable {d : LedgerDir S} {p q : LedgerPath S} {bytes : List UInt8}

/-- The directory with a file, unless it was there. -/
def written (d : LedgerDir S) (p : LedgerPath S) (bytes : List UInt8) : LedgerDir S :=
  update d p ((d p).or (some (.file bytes)))

theorem written_of_ne (h : q ≠ p) : written d p bytes q = d q := update_of_ne h _ _

theorem written_ne_none : written d p bytes p ≠ none := by
  unfold written
  cases d p <;> simp

/-- Nothing is overwritten. -/
theorem written_of_ne_none (h : d q ≠ none) : written d p bytes q = d q := by
  by_cases hq : q = p
  · subst hq
    obtain ⟨entry, hentry⟩ := Option.ne_none_iff_exists'.mp h
    simp [written, hentry]
  · exact written_of_ne hq

theorem eq_of_written {entry : Entry (LedgerPath S)} (h : written d p bytes p = some entry) :
    d p = some entry ∨ entry = .file bytes := by
  unfold written at h
  rw [update_self] at h
  cases hp : d p with
  | some entry' =>
    rw [hp] at h
    exact .inl h
  | none =>
    rw [hp] at h
    exact .inr (Option.some.inj h).symm

theorem perform_writeUnlessThere (hfile : ∀ entry, d p = some entry → ∃ b, entry = .file b) :
    perform (writeUnlessThere d p bytes) d = (.ok (), written d p bytes) := by
  unfold writeUnlessThere written
  cases hp : d p with
  | some entry =>
    obtain ⟨b, rfl⟩ := hfile entry hp
    have hthere : contents d p = some b := by simp [contents, hp]
    have hself : update d p (some (.file b)) = d := by
      rw [← hp]
      exact update_eq_self _ _
    rw [hthere, Option.some_or, hself]
    rfl
  | none =>
    have hnone : contents d p = none := by simp [contents, hp]
    rw [hnone]
    exact perform_writeFile bytes

end Written

/-- The directory after a call. -/
def PersistCall.effect (d : LedgerDir S) : PersistCall S → LedgerDir S
  | writeBftHeader block => written d (.header (S.getId block)) (S.header.encode block)
  | writeBftBody body => written d (.body (S.getBodyId body)) (S.body.encode body)
  | updateHead head id => update d (.head head) (some (.link (.header id)))

namespace CompleteDir

variable {d : LedgerDir S} (hd : CompleteDir d)

include hd

/-- Every call succeeds. -/
theorem run_eq (call : PersistCall S) : call.run d = (.ok (), call.effect d) := by
  cases call with
  | writeBftHeader block =>
    refine perform_writeUnlessThere fun entry h => ?_
    obtain ⟨block', -, rfl⟩ := hd.header _ _ h
    exact ⟨_, rfl⟩
  | writeBftBody body =>
    refine perform_writeUnlessThere fun entry h => ?_
    obtain ⟨body', -, rfl⟩ := hd.body _ _ h
    exact ⟨_, rfl⟩
  | updateHead head id =>
    have hself : update d (.wip head) none = d := by
      rw [← hd.wip head]
      exact update_eq_self _ _
    refine (perform_replaceLink (hd.wip head)).trans ?_
    rw [hself]
    rfl

theorem effect (call : PersistCall S) : CompleteDir (call.effect d) := by
  cases call with
  | writeBftHeader block =>
    refine ⟨fun id entry h => ?_, fun id entry h => ?_, fun head => ?_⟩
    · by_cases hid : id = S.getId block
      · subst hid
        rcases eq_of_written h with hold | hnew
        · exact hd.header _ entry hold
        · exact ⟨block, rfl, hnew⟩
      · exact hd.header id entry ((written_of_ne (by simpa using hid)).symm.trans h)
    · exact hd.body id entry ((written_of_ne (by simp)).symm.trans h)
    · exact (written_of_ne (by simp)).trans (hd.wip head)
  | writeBftBody body =>
    refine ⟨fun id entry h => ?_, fun id entry h => ?_, fun head => ?_⟩
    · exact hd.header id entry ((written_of_ne (by simp)).symm.trans h)
    · by_cases hid : id = S.getBodyId body
      · subst hid
        rcases eq_of_written h with hold | hnew
        · exact hd.body _ entry hold
        · exact ⟨body, rfl, hnew⟩
      · exact hd.body id entry ((written_of_ne (by simpa using hid)).symm.trans h)
    · exact (written_of_ne (by simp)).trans (hd.wip head)
  | updateHead head id =>
    refine ⟨fun id' entry h => ?_, fun id' entry h => ?_, fun head' => ?_⟩
    · exact hd.header id' entry ((update_of_ne (by simp) _ _).symm.trans h)
    · exact hd.body id' entry ((update_of_ne (by simp) _ _).symm.trans h)
    · exact (update_of_ne (by simp) _ _).trans (hd.wip head')

/-- A process that stops between calls has done all of the call or nothing. -/
theorem stopped_eq {call : PersistCall S} {count : ℕ}
    (h : DirEvent.BetweenCalls d (.stopped call count)) :
    call.stopped d count = d ∨ call.stopped d count = call.effect d := by
  unfold PersistCall.stopped
  rcases h with rfl | hall
  · exact .inl rfl
  · refine .inr ?_
    rw [take_of_length_le hall]
    exact congrArg Prod.snd (hd.run_eq call)

end CompleteDir

/-- Files are not removed. -/
theorem effect_ne_none {d : LedgerDir S} {path : LedgerPath S} (call : PersistCall S)
    (h : d path ≠ none) : call.effect d path ≠ none := by
  cases call with
  | writeBftHeader block => exact (written_of_ne_none h).trans_ne h
  | writeBftBody body => exact (written_of_ne_none h).trans_ne h
  | updateHead head id =>
    by_cases hpath : path = .head head
    · simp [PersistCall.effect, hpath]
    · exact (update_of_ne hpath _ _).trans_ne h

/-! ## Runs that stop between calls only -/

/-- What a directory holds after some events. -/
structure Kept (log : List (DirEvent S)) (d : LedgerDir S) : Prop where
  complete : CompleteDir d
  succeeded : ∀ call result, .returned call result ∈ log → result = .ok ()
  header : ∀ block result, .returned (.writeBftHeader block) result ∈ log →
    d (.header (S.getId block)) ≠ none
  body : ∀ body result, .returned (.writeBftBody body) result ∈ log →
    d (.body (S.getBodyId body)) ≠ none
  head : ∀ head id result before after,
    log = before ++ .returned (.updateHead head id) result :: after →
    (∀ event ∈ after, ¬event.Updates head) → d (.head head) = some (.link (.header id))

namespace Kept

variable {log : List (DirEvent S)} {d d' : LedgerDir S} {head : Head}

theorem empty : Kept [] (empty : LedgerDir S) :=
  ⟨completeDir_empty, by simp, by simp, by simp, by simp⟩

/-- A head that no later event is about. -/
theorem head_snoc (h : Kept log d) {event : DirEvent S}
    (hsame : ∀ head, ¬event.Updates head → d' (.head head) = d (.head head)) {id : S.HeaderId}
    {before after : List (DirEvent S)} {result : Except IoError Unit}
    (hlog : log = before ++ .returned (.updateHead head id) result :: after)
    (hafter : ∀ e ∈ after ++ [event], ¬e.Updates head) :
    d' (.head head) = some (.link (.header id)) := by
  rw [hsame head (hafter event (by simp))]
  exact h.head head id result before after hlog fun e he => hafter e (by simp [he])

/-- A call that is not about a head leaves the heads. -/
theorem effect_head (call : PersistCall S) (h : ¬call.Updates head) :
    call.effect d (.head head) = d (.head head) := by
  cases call with
  | writeBftHeader block => exact written_of_ne (by simp)
  | writeBftBody body => exact written_of_ne (by simp)
  | updateHead head' id => exact update_of_ne (by simpa using Ne.symm h) _ _

theorem call (h : Kept log d) (call : PersistCall S) :
    Kept (log ++ [.returned call (.ok ())]) (call.effect d) := by
  refine ⟨h.complete.effect call, fun c result hc => ?_, fun block result hc => ?_,
    fun body result hc => ?_, fun head id result before after hlog hafter => ?_⟩
  · rcases mem_append.mp hc with hc | hc
    · exact h.succeeded c result hc
    · cases mem_singleton.mp hc
      rfl
  · rcases mem_append.mp hc with hc | hc
    · exact effect_ne_none call (h.header block result hc)
    · cases mem_singleton.mp hc
      exact written_ne_none
  · rcases mem_append.mp hc with hc | hc
    · exact effect_ne_none call (h.body body result hc)
    · cases mem_singleton.mp hc
      exact written_ne_none
  · rcases eq_snoc_append_cons hlog with ⟨-, -, hcall⟩ | ⟨after', rfl, hlog'⟩
    · cases hcall
      exact update_self _ _ _
    · have hsame : ∀ head, ¬(DirEvent.returned call (.ok ())).Updates head →
          call.effect d (.head head) = d (.head head) := fun _ hhead => effect_head call hhead
      exact h.head_snoc hsame hlog' hafter

theorem stop (h : Kept log d) {call : PersistCall S} {count : ℕ}
    (hstop : DirEvent.BetweenCalls d (.stopped call count)) :
    Kept (log ++ [.stopped call count]) (call.stopped d count) := by
  have hne : ∀ path, d path ≠ none → call.stopped d count path ≠ none := by
    intro path hpath
    rcases h.complete.stopped_eq hstop with hd | hd <;> rw [hd]
    · exact hpath
    · exact effect_ne_none call hpath
  have hcomplete : CompleteDir (call.stopped d count) := by
    rcases h.complete.stopped_eq hstop with hd | hd <;> rw [hd]
    · exact h.complete
    · exact h.complete.effect call
  refine ⟨hcomplete, fun c result hc => ?_, fun block result hc => ?_,
    fun body result hc => ?_, fun head id result before after hlog hafter => ?_⟩
  · exact h.succeeded c result (by simpa using hc)
  · exact hne _ (h.header block result (by simpa using hc))
  · exact hne _ (h.body body result (by simpa using hc))
  · rcases eq_snoc_append_cons hlog with ⟨-, -, hcall⟩ | ⟨after', rfl, hlog'⟩
    · cases hcall
    · refine h.head_snoc (fun head hhead => ?_) hlog' hafter
      rcases h.complete.stopped_eq hstop with hd | hd <;> rw [hd]
      exact effect_head call hhead

theorem step (h : Kept log d) {events : List (DirEvent S)}
    (hstep : DirStep DirEvent.BetweenCalls d events d') : Kept (log ++ events) d' := by
  cases hstep with
  | call call _ =>
    rw [h.complete.run_eq call]
    exact h.call call
  | stop call count hstop => exact h.stop hstop

end Kept

/-- **What is written stays readable.** If the process only ever stops between calls, every
call returns `Ok`, headers and bodies that were written are read back, and the proposed head
is the header it was last set to. -/
theorem DirRun.survives (hid : Injective S.getId)
    (hbody : Injective S.getBodyId) {log : List (DirEvent S)} {d : LedgerDir S}
    (hrun : DirRun DirEvent.BetweenCalls empty log d) :
    (∀ call result, .returned call result ∈ log → result = .ok ()) ∧
    (∀ block, .returned (.writeBftHeader block) (.ok ()) ∈ log →
      readBftHeader d (S.getId block) = .ok block) ∧
    (∀ body, .returned (.writeBftBody body) (.ok ()) ∈ log →
      readBftBody d (S.getBodyId body) = .ok body) ∧
    ∀ block before after,
      log = before ++ .returned (.updateHead .proposed (S.getId block)) (.ok ()) :: after →
      .returned (.writeBftHeader block) (.ok ()) ∈ before →
      (∀ event ∈ after, ¬event.Updates .proposed) →
      readProposedHeadBftHeader d = .ok block := by
  have h : Kept log d := Reach.history Kept.empty (fun _ _ _ _ h hstep => h.step hstep) hrun
  refine ⟨h.succeeded, fun block hmem => ?_, fun body hmem => ?_,
    fun block before after hlog hmem hafter => ?_⟩
  · exact h.complete.readBftHeader hid (h.header block _ hmem)
  · exact h.complete.readBftBody hbody (h.body body _ hmem)
  · have hwritten := h.header block (.ok ()) (hlog ▸ mem_append_left _ hmem)
    rw [h.complete.readProposedHeadBftHeader (h.head _ _ _ before after hlog hafter)]
    exact h.complete.readBftHeader hid hwritten

/-- Headers and bodies of one byte. -/
def oneByte : Codec UInt8 where
  encode b := [b]
  decode
    | [b] => some b
    | _ => none
  decode_encode _ := rfl

abbrev oneByteBlocks : Stored where
  Header := UInt8
  Body := UInt8
  HeaderId := UInt8
  BodyId := UInt8
  getId b := b
  getBodyId b := b
  header := oneByte
  body := oneByte

/-- The calls that write a header and make it the proposed head. -/
def writeSeven : PersistCall oneByteBlocks := .writeBftHeader 7

def headSeven : PersistCall oneByteBlocks := .updateHead .proposed 7

/-- A header is written, a first update of the head is not begun before the process stops, and
the second one is done. -/
theorem dirRun_wholeCalls : ∃ d, DirRun DirEvent.BetweenCalls empty
    [.returned writeSeven (.ok ()), .stopped headSeven 0, .returned headSeven (.ok ())] d :=
  ⟨_, Reach.snoc (Reach.snoc (Reach.single (DirStep.call writeSeven trivial))
    (DirStep.stop headSeven 0 (.inl rfl))) (DirStep.call headSeven trivial)⟩

theorem DirRun.survives_wholeCalls : ∃ d, DirRun DirEvent.BetweenCalls empty
    [.returned writeSeven (.ok ()), .stopped headSeven 0, .returned headSeven (.ok ())] d ∧
      readProposedHeadBftHeader d = .ok 7 := by
  obtain ⟨d, hrun⟩ := dirRun_wholeCalls
  have h := DirRun.survives injective_id injective_id hrun
  exact ⟨d, hrun, h.2.2.2 7 [.returned writeSeven (.ok ()), .stopped headSeven 0] [] rfl
    (by simp [writeSeven]) (by simp)⟩

/-- A process that stops right after it created a header file leaves it empty, and the next
write of that header succeeds without completing it. A process that stops right after it
created the temporary link of a head leaves it, and the next update of that head fails. -/
theorem DirRun.stopped_inside_call :
    (∃ d, DirRun (fun _ _ => True) empty
        [.stopped writeSeven 1, .returned writeSeven (.ok ())] d ∧
      readBftHeader d 7 = .error .other) ∧
    ∃ d, DirRun (fun _ _ => True) empty
      [.stopped headSeven 1, .returned headSeven (.error .alreadyExists)] d :=
  ⟨⟨_, Reach.snoc (Reach.single (DirStep.stop writeSeven 1 trivial))
      (DirStep.call writeSeven trivial), rfl⟩,
    ⟨_, Reach.snoc (Reach.single (DirStep.stop headSeven 1 trivial))
      (DirStep.call headSeven trivial)⟩⟩

end MonadBft
