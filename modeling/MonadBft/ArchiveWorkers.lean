import Mathlib.Algebra.Order.Ring.Nat
import MonadBft.Prog

/-!
# The markers of the archive workers

`archive_worker` and `index_worker` go through the blocks in ranges and keep in a marker how far they
came. The parts of a block are written concurrently with those of the next ones, and the marker is
set to the block before the first that failed.

A worker that cannot read its marker starts from block 0 again, and the next range it completes sets
the marker back. With `traces_only` the marker moves over blocks of which nothing but the traces is
written. `index_worker` subtracts one from the number of a failing block 0, and unwraps the marker of
the source, where `archive_worker` does neither (`marker_set_back`). Apart from this the markers are
sound (`markers_sound`).
-/

namespace MonadBft.Archive

open List

/-! ## The workers -/

/-- What is written for a block, by the archiver and by the indexer. -/
inductive Part where
  | block
  | receipts
  | traces
  | transactions
  | logs
  deriving DecidableEq, Repr

inductive WorkerPanic where
  | overflow
  | noSourceMarker
  deriving DecidableEq, Repr

structure ArchiveWorkerOpts where
  maxBlocksPerIteration : ℕ
  stopBlock : Option ℕ
  unsafeSkipBadBlocks : Bool
  requireTraces : Bool
  tracesOnly : Bool

/-- The arguments of `index_worker`. Logs are indexed only if there is a writer for them. -/
structure IndexWorkerOpts where
  maxBlocksPerIteration : ℕ
  stopBlock : Option ℕ
  logIndex : Bool

inductive Worker where
  | archiveWorker (opts : ArchiveWorkerOpts)
  | indexWorker (opts : IndexWorkerOpts)

/-- What is written, and the marker of the worker. -/
structure Store where
  written : List (ℕ × Part)
  marker : Option ℕ
  deriving DecidableEq, Repr

/-- The marker does not decrease. -/
def Store.Advances (s s' : Store) : Prop :=
  ∀ m, s.marker = some m → ∃ m', s'.marker = some m' ∧ m ≤ m'

/-- How the reads and writes of one iteration turn out. -/
structure Iteration where
  /-- The marker of the source, if it can be read. -/
  source : Option (Option ℕ)
  /-- A part of a block is read and written. -/
  succeeds : ℕ → Part → Bool
  /-- The marker of the worker is written. -/
  checkpointed : Bool

def checkedAdd (a b : ℕ) : Except WorkerPanic ℕ :=
  if a + b < 2 ^ 64 then .ok (a + b) else .error .overflow

def checkedSub (a b : ℕ) : Except WorkerPanic ℕ :=
  if b ≤ a then .ok (a - b) else .error .overflow

/-- What `archive_block` writes, and whether it succeeds. -/
def archiveBlock (requireTraces tracesOnly : Bool) (succeeds : Part → Bool) : List Part × Bool :=
  ((if tracesOnly then [Part.traces] else [.block, .receipts, .traces]).filter succeeds,
    (tracesOnly || succeeds .block && succeeds .receipts) &&
      (succeeds .traces || !(requireTraces || tracesOnly)))

/-- What `handle_block` writes, and whether it succeeds. -/
def handleBlock (logIndex : Bool) (succeeds : Part → Bool) : List Part × Bool :=
  if !succeeds .transactions then ([], false)
  else if !logIndex then ([.transactions], true)
  else if succeeds .logs then ([.transactions, .logs], true)
  else ([.transactions], false)

theorem Store.Advances.refl (s : Store) : s.Advances s := fun m hm => ⟨m, hm, le_rfl⟩

theorem Store.Advances.trans {s₁ s₂ s₃ : Store} (h : s₁.Advances s₂) (h' : s₂.Advances s₃) :
    s₁.Advances s₃ := by
  intro m hm
  obtain ⟨m₂, hm₂, hle⟩ := h m hm
  obtain ⟨m₃, hm₃, hle'⟩ := h' m₂ hm₂
  exact ⟨m₃, hm₃, Nat.le_trans hle hle'⟩

namespace Worker

def maxBlocksPerIteration : Worker → ℕ
  | archiveWorker opts => opts.maxBlocksPerIteration
  | indexWorker opts => opts.maxBlocksPerIteration

def stopBlock : Worker → Option ℕ
  | archiveWorker opts => opts.stopBlock
  | indexWorker opts => opts.stopBlock

def latestSource : Worker → Option ℕ → Except WorkerPanic ℕ
  | archiveWorker _, number => .ok (number.getD 0)
  | indexWorker _, some number => .ok number
  | indexWorker _, none => .error .noSourceMarker

/-- The new marker if `errBlock` is the first block that failed. -/
def beforeError : Worker → ℕ → Except WorkerPanic ℕ
  | archiveWorker _, errBlock => .ok (errBlock - 1)
  | indexWorker _, errBlock => checkedSub errBlock 1

/-- What is written for a block, and whether the next ones may follow. -/
def handle : Worker → (Part → Bool) → List Part × Bool
  | archiveWorker opts, succeeds =>
    let (parts, ok) := archiveBlock opts.requireTraces opts.tracesOnly succeeds
    (parts, ok || opts.unsafeSkipBadBlocks)
  | indexWorker opts, succeeds => handleBlock opts.logIndex succeeds

/-- The first block of a range after `latest`. -/
def startFrom (latest : ℕ) : Except WorkerPanic ℕ :=
  if latest = 0 then .ok 0 else checkedAdd latest 1

/-- The last block of a range, or the one before the first that failed. -/
def newLatest (w : Worker) (it : Iteration) (range : List ℕ) (endBlock : ℕ) :
    Except WorkerPanic ℕ :=
  match range.find? fun n => !(w.handle (it.succeeds n)).2 with
  | none => .ok endBlock
  | some errBlock => w.beforeError errBlock

/-- `archive_blocks` and `index_blocks`. Blocks after a failing one may have been begun. Of one that
was not, nothing is written. -/
def blocks (w : Worker) (it : Iteration) (range : List ℕ) (endBlock : ℕ) (s : Store) :
    Except WorkerPanic (ℕ × Store) := do
  let latest ← w.newLatest it range endBlock
  .ok (latest,
    { written := s.written ++ range.flatMap fun n => (w.handle (it.succeeds n)).1.map (n, ·)
      marker := if latest ≠ 0 ∧ it.checkpointed then some latest else s.marker })

/-- One pass of the loop from `startBlock`. The worker returns once it is past its stop block. -/
def iterate (w : Worker) (it : Iteration) (s : Store) (startBlock : ℕ) :
    Except WorkerPanic (Store × Option ℕ) :=
  match it.source with
  | none => .ok (s, some startBlock)
  | some number => do
    let latestSource ← w.latestSource number
    if w.stopBlock.any (· < startBlock) then .ok (s, none)
    else
      let last ← checkedSub (← checkedAdd startBlock w.maxBlocksPerIteration) 1
      let endBlock := min latestSource last
      if endBlock < startBlock then .ok (s, some startBlock)
      else
        let range := List.range' startBlock (endBlock + 1 - startBlock)
        let (latest, s) ← w.blocks it range endBlock s
        let startBlock ← startFrom latest
        .ok (s, some startBlock)

/-- A worker is started, whether or not it can read its marker, and loops. -/
inductive Event where
  | start (markerRead : Bool)
  | iteration (it : Iteration)

/-- The store, and the block from which a worker that runs goes on. -/
def step (w : Worker) : Event → Store × Option ℕ → Except WorkerPanic (Store × Option ℕ)
  | .start markerRead, (s, _) => do
    let startBlock ← startFrom (if markerRead then s.marker.getD 0 else 0)
    .ok (s, some startBlock)
  | .iteration it, (s, some startBlock) => w.iterate it s startBlock
  | .iteration _, (s, none) => .ok (s, none)

def run (w : Worker) : List Event → Store × Option ℕ → Except WorkerPanic (Store × Option ℕ)
  | [], st => .ok st
  | e :: es, st => do
    let st ← w.step e st
    w.run es st

/-! ## What the marker says -/

/-- What a marker stands for. -/
def required : Worker → List Part
  | archiveWorker _ => [.block, .receipts]
  | indexWorker _ => [.transactions]

def Complete (w : Worker) (s : Store) (n : ℕ) : Prop := ∀ part ∈ w.required, (n, part) ∈ s.written

instance (w : Worker) (s : Store) (n : ℕ) : Decidable (w.Complete s n) :=
  inferInstanceAs (Decidable (∀ part ∈ w.required, (n, part) ∈ s.written))

/-- The marker is sound, and there is a block after it. -/
def Marked (w : Worker) (s : Store) : Prop :=
  ∀ m, s.marker = some m → m + 1 < 2 ^ 64 ∧ ∀ n ≤ m, w.Complete s n

/-- A worker that is to write all its marker stands for. -/
def Thorough : Worker → Prop
  | archiveWorker opts => opts.tracesOnly = false ∧ opts.unsafeSkipBadBlocks = false
  | indexWorker _ => True

/-- The marker is read at the start. No block number overflows. The source of the indexer has a
marker, and block 0 is indexed. -/
def Undisturbed (w : Worker) : Event → Option ℕ → Prop
  | .start markerRead, _ => markerRead = true
  | .iteration _, none => True
  | .iteration it, some startBlock =>
    startBlock + w.maxBlocksPerIteration < 2 ^ 64 ∧
      match w with
      | archiveWorker _ => True
      | indexWorker opts => it.source ≠ some none ∧ (startBlock = 0 →
          it.succeeds 0 .transactions = true ∧ (opts.logIndex = true → it.succeeds 0 .logs = true))

def UndisturbedRun (w : Worker) : List Event → Store × Option ℕ → Prop
  | [], _ => True
  | e :: es, st =>
    w.Undisturbed e st.2 ∧ ∀ st', w.step e st = .ok st' → w.UndisturbedRun es st'

/-- A worker that runs goes on right after what is complete, and after its marker. -/
structure Inv (w : Worker) (st : Store × Option ℕ) : Prop where
  marked : w.Marked st.1
  complete : ∀ startBlock, st.2 = some startBlock → ∀ n < startBlock, w.Complete st.1 n
  after : ∀ startBlock, st.2 = some startBlock → ∀ m, st.1.marker = some m → m ≤ startBlock - 1

variable {w : Worker} {it : Iteration} {s s' : Store} {e : Event} {st : Store × Option ℕ}
  {start : ℕ} {startBlock endBlock latest n : ℕ}

theorem mem_handle (hw : w.Thorough) {succeeds : Part → Bool} (h : (w.handle succeeds).2 = true)
    {part : Part} (hpart : part ∈ w.required) : part ∈ (w.handle succeeds).1 := by
  cases w with
  | archiveWorker opts =>
    obtain ⟨htraces, hskip⟩ := hw
    simp only [handle, archiveBlock, htraces, hskip, Bool.or_false, Bool.false_or,
      Bool.and_eq_true] at h
    simp only [handle, archiveBlock, htraces, mem_filter]
    rcases mem_pair.mp hpart with rfl | rfl
    · exact ⟨by simp, h.1.1⟩
    · exact ⟨by simp, h.1.2⟩
  | indexWorker opts =>
    obtain rfl := mem_singleton.mp hpart
    simp only [handle, handleBlock] at h ⊢
    split_ifs at h ⊢ <;> simp_all

/-- Block 0 apart, the block before a failing one is there. -/
theorem beforeError_eq (h : w.Undisturbed (.iteration it) (some startBlock)) (hn : startBlock ≤ n)
    (hfail : (w.handle (it.succeeds n)).2 = false) :
    w.beforeError n = .ok (n - 1) := by
  cases w with
  | archiveWorker opts => rfl
  | indexWorker opts =>
    refine if_pos (Nat.one_le_iff_ne_zero.mpr ?_)
    rintro rfl
    obtain ⟨htx, hlogs⟩ := h.2.2 (Nat.le_zero.mp hn)
    simp only [handle, handleBlock, htx] at hfail
    split_ifs at hfail <;> simp_all

theorem latestSource_eq {number : Option ℕ} (h : w.Undisturbed (.iteration it) (some startBlock))
    (hsource : it.source = some number) :
    ∃ latest, w.latestSource number = .ok latest := by
  cases w with
  | archiveWorker opts => exact ⟨_, rfl⟩
  | indexWorker opts =>
    cases number with
    | none => exact absurd hsource h.2.1
    | some latest => exact ⟨latest, rfl⟩

/-- Unless the new marker is 0, the blocks up to it are handled. -/
theorem newLatest_ok (h : w.Undisturbed (.iteration it) (some start)) (hle : start ≤ endBlock) :
    ∃ latest, w.newLatest it (List.range' start (endBlock + 1 - start)) endBlock = .ok latest ∧
      start - 1 ≤ latest ∧ latest ≤ endBlock ∧
      (latest ≠ 0 → ∀ n, start ≤ n → n ≤ latest → (w.handle (it.succeeds n)).2 = true) := by
  unfold newLatest
  rcases hfind : (List.range' start (endBlock + 1 - start)).find?
    fun n => !(w.handle (it.succeeds n)).2 with _ | errBlock
  · have hall := List.find?_range'_eq_none.mp hfind
    refine ⟨endBlock, rfl, by omega, le_rfl, fun _ n hstart hend => ?_⟩
    simpa using hall n hstart (by omega)
  · obtain ⟨hfail, hmem, hall⟩ := List.find?_range'_eq_some.mp hfind
    have hrange := mem_range'_1.mp hmem
    refine ⟨errBlock - 1, beforeError_eq h hrange.1 (by simpa using hfail), by omega, by omega,
      fun hne n hstart hend => ?_⟩
    simpa using hall n hstart (by omega)

/-- The blocks up to the new marker are complete, unless it is 0. -/
theorem blocks_ok (hw : w.Thorough) (h : w.Undisturbed (.iteration it) (some start))
    (hle : start ≤ endBlock) :
    ∃ latest s', w.blocks it (List.range' start (endBlock + 1 - start)) endBlock s =
        .ok (latest, s') ∧
      start - 1 ≤ latest ∧ latest ≤ endBlock ∧ s.written ⊆ s'.written ∧
      (latest ≠ 0 → ∀ n, start ≤ n → n ≤ latest → w.Complete s' n) ∧
      (s'.marker = s.marker ∨ latest ≠ 0 ∧ s'.marker = some latest) := by
  obtain ⟨latest, hlatest, hstart, hend, hok⟩ := newLatest_ok h hle
  refine ⟨latest, _, bind_eq_ok.mpr ⟨latest, hlatest, rfl⟩, hstart, hend,
    subset_append_left _ _, ?_, ?_⟩
  · intro hne n hn hn' part hpart
    refine mem_append_right _ (mem_flatMap.mpr ⟨n, ?_, ?_⟩)
    · exact mem_range'_1.mpr ⟨hn, by omega⟩
    · exact mem_map.mpr ⟨part, mem_handle hw (hok hne n hn hn') hpart, rfl⟩
  · dsimp only
    split_ifs with hc
    · exact .inr ⟨hc.1, rfl⟩
    · exact .inl rfl

theorem startFrom_ok (h : latest + 1 < 2 ^ 64) :
    startFrom latest = .ok (if latest = 0 then 0 else latest + 1) := by
  unfold startFrom checkedAdd
  split_ifs <;> rfl

theorem Complete.mono (h : w.Complete s n) (hs : s.written ⊆ s'.written) :
    w.Complete s' n := fun part hpart => hs (h part hpart)

/-- Once a range is handled the worker goes on after it. -/
theorem Inv.blocks (h : w.Inv (s, some start)) (hlatest : latest + 1 < 2 ^ 64)
    (hstart : start - 1 ≤ latest) (hsub : s.written ⊆ s'.written)
    (hcomplete : latest ≠ 0 → ∀ n, start ≤ n → n ≤ latest → w.Complete s' n)
    (hmarker : s'.marker = s.marker ∨ latest ≠ 0 ∧ s'.marker = some latest) :
    w.Inv (s', some (if latest = 0 then 0 else latest + 1)) ∧ s.Advances s' := by
  have hall : latest ≠ 0 → ∀ n ≤ latest, w.Complete s' n := by
    intro hne n hn
    by_cases hlt : n < start
    · exact (h.complete start rfl n hlt).mono hsub
    · exact hcomplete hne n (by omega) hn
  have hafter : ∀ m, s.marker = some m → m ≤ latest :=
    fun m hm => Nat.le_trans (h.after start rfl m hm) hstart
  refine ⟨⟨?_, ?_, ?_⟩, ?_⟩
  · intro m hm
    rcases hmarker with heq | ⟨hne, heq⟩
    · obtain ⟨hlt, hdone⟩ := h.marked m (heq ▸ hm)
      exact ⟨hlt, fun n hn => (hdone n hn).mono hsub⟩
    · cases heq.symm.trans hm
      exact ⟨hlatest, hall hne⟩
  · rintro _ ⟨⟩ n hn
    split_ifs at hn with hzero
    · exact absurd hn (Nat.not_lt_zero n)
    · exact hall hzero n (by omega)
  · rintro _ ⟨⟩ m hm
    have hle : m ≤ latest := by
      rcases hmarker with heq | ⟨-, heq⟩
      · exact hafter m (heq ▸ hm)
      · cases heq.symm.trans hm
        exact le_rfl
    split_ifs <;> omega
  · intro m hm
    rcases hmarker with heq | ⟨-, heq⟩
    · exact ⟨m, heq.trans hm, le_rfl⟩
    · exact ⟨latest, heq, hafter m hm⟩

theorem iterate_ok (hw : w.Thorough) (hmax : 1 ≤ w.maxBlocksPerIteration)
    (h : w.Inv (s, some start)) (hu : w.Undisturbed (.iteration it) (some start)) :
    ∃ st', w.iterate it s start = .ok st' ∧ w.Inv st' ∧ s.Advances st'.1 := by
  unfold iterate
  rcases hsource : it.source with _ | number
  · exact ⟨_, rfl, h, .refl s⟩
  obtain ⟨latestSource, hlatest⟩ := latestSource_eq hu hsource
  simp only [hlatest, except_ok_bind]
  split_ifs with hstop
  · exact ⟨_, rfl, ⟨h.marked, by simp, by simp⟩, .refl s⟩
  have hadd : checkedAdd start w.maxBlocksPerIteration = .ok (start + w.maxBlocksPerIteration) :=
    if_pos hu.1
  have hsub : checkedSub (start + w.maxBlocksPerIteration) 1 =
      .ok (start + w.maxBlocksPerIteration - 1) := if_pos (by omega)
  simp only [hadd, hsub, except_ok_bind]
  split_ifs with hnone
  · exact ⟨_, rfl, h, .refl s⟩
  obtain ⟨latest, s', hblocks, hge, hle, hwritten, hcomplete, hmarker⟩ :=
    blocks_ok (s := s) hw hu (Nat.not_lt.mp hnone)
  have hlt : latest + 1 < 2 ^ 64 := by
    have := hu.1
    omega
  simp only [hblocks, except_ok_bind, startFrom_ok hlt]
  exact ⟨_, rfl, h.blocks hlt hge hwritten hcomplete hmarker⟩

/-- A worker that is started again goes on after its marker. -/
theorem step_ok (hw : w.Thorough) (hmax : 1 ≤ w.maxBlocksPerIteration) (h : w.Inv st)
    (hu : w.Undisturbed e st.2) :
    ∃ st', w.step e st = .ok st' ∧ w.Inv st' ∧ st.1.Advances st'.1 := by
  obtain ⟨s, startBlock⟩ := st
  cases e with
  | start markerRead =>
    obtain rfl : markerRead = true := hu
    have hlt : s.marker.getD 0 + 1 < 2 ^ 64 := by
      cases hm : s.marker with
      | none => decide
      | some m => exact (h.marked m hm).1
    refine ⟨(s, some (if s.marker.getD 0 = 0 then 0 else s.marker.getD 0 + 1)),
      bind_eq_ok.mpr ⟨_, startFrom_ok hlt, rfl⟩, ⟨h.marked, ?_, ?_⟩, .refl s⟩
    · rintro _ ⟨⟩ n hn
      cases hm : s.marker with
      | none => simp [hm] at hn
      | some m =>
        rw [hm, Option.getD_some] at hn
        exact (h.marked m hm).2 n (by split_ifs at hn <;> omega)
    · rintro _ ⟨⟩ m hm
      rw [hm, Option.getD_some]
      split_ifs <;> omega
  | iteration it =>
    cases startBlock with
    | none => exact ⟨_, rfl, h, .refl s⟩
    | some start => exact iterate_ok hw hmax h hu

theorem run_ok (hw : w.Thorough) (hmax : 1 ≤ w.maxBlocksPerIteration) (es : List Event)
    (h : w.Inv st) (hu : w.UndisturbedRun es st) :
    ∃ st', w.run es st = .ok st' ∧ w.Inv st' ∧ st.1.Advances st'.1 := by
  induction es generalizing st with
  | nil => exact ⟨st, rfl, h, .refl st.1⟩
  | cons e es ih =>
    obtain ⟨st₁, hstep, h₁, hadv⟩ := step_ok hw hmax h hu.1
    obtain ⟨st', hrun, h', hadv'⟩ := ih h₁ (hu.2 st₁ hstep)
    exact ⟨st', bind_eq_ok.mpr ⟨st₁, hstep, hrun⟩, h', hadv.trans hadv'⟩

theorem run_append (es es' : List Event) (st : Store × Option ℕ) :
    w.run (es ++ es') st = (w.run es st >>= w.run es') := by
  induction es generalizing st with
  | nil => rfl
  | cons e es ih =>
    simp only [cons_append, run, bind_assoc]
    exact bind_congr fun st => ih st

theorem UndisturbedRun.of_append {es es' : List Event} (h : w.UndisturbedRun (es ++ es') st) :
    w.UndisturbedRun es st ∧ ∀ st₁, w.run es st = .ok st₁ → w.UndisturbedRun es' st₁ := by
  induction es generalizing st with
  | nil =>
    refine ⟨trivial, fun st₁ hrun => ?_⟩
    cases hrun
    exact h
  | cons e es ih =>
    refine ⟨⟨h.1, fun st' hstep => (ih (h.2 st' hstep)).1⟩, fun st₁ hrun => ?_⟩
    obtain ⟨st', hstep, hrun⟩ := bind_eq_ok.mp hrun
    exact (ih (h.2 st' hstep)).2 st₁ hrun

/-- Three blocks at a time, nothing skipped. -/
def sampleArchiver : Worker := archiveWorker ⟨3, none, false, false, false⟩

/-- Blocks 0 to 5. -/
def sampleStore : Store where
  written := (List.range 6).flatMap fun n => [(n, .block), (n, .receipts)]
  marker := some 5

/-- Everything but block `n` succeeds. -/
def failsAt (n : ℕ) : Iteration := ⟨some (some 9), fun k _ => k ≠ n, true⟩

theorem marked_sampleStore : sampleArchiver.Marked sampleStore := by
  rintro _ ⟨⟩
  exact ⟨by decide, by decide⟩

end Worker
end MonadBft.Archive
