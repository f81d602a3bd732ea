import Mathlib.Data.List.Sort
import MonadBft.Prog
import MonadBft.Validator

/-!
# The epoch schedule is a function of the chain

A node schedules the start of an epoch when it commits the boundary block before it. What it has
scheduled is determined by the blocks it has committed, in whatever order and however often
(`Scheduled`). The starts increase along the chain, so a block that a node has not committed yet
changes no epoch before its own start (`schedule_agrees`).
-/

namespace MonadBft.EpochManager

open List

/-- `schedule_epoch_start` for some blocks, by sequence number and round. -/
def scheduleAll (em : EpochManager) (blocks : List (ℕ × ℕ)) : Except Panic EpochManager :=
  blocks.foldlM (fun em block => em.scheduleEpochStart block.1 block.2) em

/-- Ordered by sequence number and by round. -/
def Before (a b : ℕ × ℕ) : Prop := a.1 < b.1 ∧ a.2 < b.2

variable {length delay start epoch round : ℕ} {blocks chain starts starts' : List (ℕ × ℕ)}

/-- Of two blocks of a chain one comes before the other. -/
theorem eq_or_before (h : chain.Pairwise Before) {x y : ℕ × ℕ} (hx : x ∈ chain) (hy : y ∈ chain) :
    x = y ∨ Before x y ∨ Before y x := by
  induction h with
  | nil => cases hx
  | cons => grind

/-- The epoch that starts after a boundary block, and its start. -/
def nextStart (length delay : ℕ) (block : ℕ × ℕ) : ℕ × ℕ :=
  (toEpoch block.1 length + 1, block.2 + delay)

/-- The epoch starts are those of the boundary blocks, after the first. -/
structure Scheduled (length delay start : ℕ) (blocks starts : List (ℕ × ℕ)) : Prop where
  sorted : starts.Pairwise fun a b => a.1 < b.1
  mem_iff : ∀ e, e ∈ starts ↔ e = (1, start) ∨
    ∃ b ∈ blocks, isBoundaryBlock b.1 length = true ∧ e = nextStart length delay b

theorem mem_insertSorted (h : ∀ e ∈ starts, e.1 ≠ epoch) {e : ℕ × ℕ} :
    e ∈ insertSorted epoch round starts ↔ e = (epoch, round) ∨ e ∈ starts := by
  induction starts with
  | nil => simp [insertSorted]
  | cons s starts ih => grind [insertSorted]

theorem pairwise_insertSorted (h : ∀ e ∈ starts, e.1 ≠ epoch)
    (hsorted : starts.Pairwise fun a b => a.1 < b.1) :
    (insertSorted epoch round starts).Pairwise fun a b => a.1 < b.1 := by
  induction starts with
  | nil => simp [insertSorted]
  | cons s starts ih =>
    rw [pairwise_cons] at hsorted
    unfold insertSorted
    split_ifs <;> simp only [pairwise_cons] <;> grind [mem_insertSorted]

/-- A boundary block is determined by its epoch. -/
theorem boundary_injective {n n' : ℕ} (hn : isBoundaryBlock n length = true)
    (hn' : isBoundaryBlock n' length = true) (h : n / length = n' / length) : n = n' := by
  simp only [isBoundaryBlock, decide_eq_true_eq] at hn hn'
  rw [← Nat.div_add_mod n length, ← Nat.div_add_mod n' length, hn, hn', h]

/-- A block that is committed again does not conflict. -/
theorem Scheduled.schedule (h : Scheduled length delay start blocks starts) {block : ℕ × ℕ}
    (hunique : ∀ b ∈ blocks, b.1 = block.1 → b = block) :
    ∃ starts', scheduleEpochStart ⟨length, delay, starts⟩ block.1 block.2 =
        .ok ⟨length, delay, starts'⟩ ∧
      Scheduled length delay start (blocks ++ [block]) starts' := by
  by_cases hboundary : isBoundaryBlock block.1 length = true
  · rw [scheduleEpochStart, if_pos hboundary, insertEpochStart]
    cases hlookup : starts.lookup (toEpoch block.1 length + 1) with
    | none =>
      have hnew : ∀ e ∈ starts, e.1 ≠ toEpoch block.1 length + 1 := by
        intro e he heq
        simpa [heq] using lookup_eq_none_iff.mp hlookup e he
      refine ⟨_, rfl, pairwise_insertSorted hnew h.sorted, fun e => ?_⟩
      rw [mem_insertSorted hnew, h.mem_iff]
      grind [nextStart]
    | some r =>
      obtain ⟨l₁, l₂, heq, -⟩ := lookup_eq_some_iff.mp hlookup
      have hr : (toEpoch block.1 length + 1, r) ∈ starts := by simp [heq]
      obtain rfl : r = block.2 + delay := by
        rcases (h.mem_iff _).mp hr with hfirst | ⟨b, hb, hb', hfound⟩
        · simp [toEpoch] at hfirst
        · simp only [nextStart, toEpoch, Prod.mk.injEq, Nat.add_right_cancel_iff] at hfound
          rw [hfound.2, hunique b hb (boundary_injective hb' hboundary hfound.1.symm)]
      exact ⟨starts, if_pos rfl, h.sorted, fun e => by grind [h.mem_iff, nextStart]⟩
  · exact ⟨starts, if_neg hboundary, h.sorted, fun e => by grind [h.mem_iff]⟩

/-- Blocks of a chain may be committed in any order and any number of times. -/
theorem scheduleAll_ok (hchain : chain.Pairwise Before) (hsub : blocks ⊆ chain) :
    ∃ starts, scheduleAll ⟨length, delay, [(1, start)]⟩ blocks = .ok ⟨length, delay, starts⟩ ∧
      Scheduled length delay start blocks starts := by
  induction blocks using List.reverseRecOn with
  | nil => exact ⟨_, rfl, by simp, by simp⟩
  | append_singleton blocks block ih =>
    obtain ⟨hblocks, hblock⟩ := append_subset.mp hsub
    obtain ⟨starts, hrun, h⟩ := ih hblocks
    obtain ⟨starts', hstep, h'⟩ := h.schedule fun b hb (heq : b.1 = block.1) => by
      grind [eq_or_before hchain (hblocks hb) (hblock (mem_singleton_self _)), Before]
    refine ⟨starts', ?_, h'⟩
    rw [scheduleAll, foldlM_append]
    exact bind_eq_ok.mpr ⟨_, hrun, by simpa using hstep⟩

/-- A block of an earlier epoch is in an earlier round. -/
theorem Scheduled.increasing (h : Scheduled length delay start blocks starts)
    (hchain : chain.Pairwise Before) (hafter : ∀ b ∈ chain, start < b.2) (hsub : blocks ⊆ chain) :
    starts.Pairwise Before := by
  refine h.sorted.imp_of_mem fun {a b} ha hb hlt => ⟨hlt, ?_⟩
  rcases (h.mem_iff b).mp hb with rfl | ⟨y, hy, -, rfl⟩
  · rcases (h.mem_iff a).mp ha with rfl | ⟨x, -, -, rfl⟩ <;> simp [nextStart, toEpoch] at hlt
  rcases (h.mem_iff a).mp ha with rfl | ⟨x, hx, -, rfl⟩
  · exact (hafter y (hsub hy)).trans_le (Nat.le_add_right _ _)
  · have hdiv : x.1 / length < y.1 / length := by simpa [nextStart, toEpoch] using hlt
    have hseq := lt_of_not_ge fun hge => hdiv.not_ge (Nat.div_le_div_right hge)
    grind [eq_or_before hchain (hsub hx) (hsub hy), Before, nextStart]

/-- The epoch of a round depends on the starts up to it. -/
theorem getEpoch_congr (h : starts.Pairwise fun a b => a.1 < b.1)
    (h' : starts'.Pairwise fun a b => a.1 < b.1)
    (hmem : ∀ e : ℕ × ℕ, e.2 ≤ round → (e ∈ starts ↔ e ∈ starts')) :
    getEpoch ⟨length, delay, starts⟩ round = getEpoch ⟨length, delay, starts'⟩ round := by
  have hfilter := (h.filter fun e => decide (e.2 ≤ round)).eq_of_mem_iff
    (h'.filter fun e => decide (e.2 ≤ round)) fun e => by grind
  unfold getEpoch
  rw [← List.head?_filter, ← List.head?_filter, filter_reverse, filter_reverse, hfilter]

/-- Two nodes that have committed the blocks of `P` and of `Q`, some of them again, have no
conflicting starts. The starts increase, and the nodes agree on the epochs up to the delay after the
last block of `P`. -/
theorem schedule_agrees (length delay start : ℕ) {chain P Q p q : List (ℕ × ℕ)}
    (hchain : chain.Pairwise Before) (hafter : ∀ b ∈ chain, start < b.2) (hP : P <+: chain)
    (hQ : Q <+: chain) (hle : P.length ≤ Q.length) (hp : ∀ b, b ∈ p ↔ b ∈ P)
    (hq : ∀ b, b ∈ q ↔ b ∈ Q) :
    ∃ em em', scheduleAll ⟨length, delay, [(1, start)]⟩ p = .ok em ∧
      scheduleAll ⟨length, delay, [(1, start)]⟩ q = .ok em' ∧
      em.epochStarts.Pairwise Before ∧ em'.epochStarts.Pairwise Before ∧
      ∀ last ∈ P.getLast?, ∀ round ≤ last.2 + delay, em.getEpoch round = em'.getEpoch round := by
  have hsubp : p ⊆ chain := fun b hb => hP.subset ((hp b).mp hb)
  have hsubq : q ⊆ chain := fun b hb => hQ.subset ((hq b).mp hb)
  obtain ⟨starts, hrun, h⟩ := scheduleAll_ok hchain hsubp
  obtain ⟨starts', hrun', h'⟩ := scheduleAll_ok hchain hsubq
  refine ⟨_, _, hrun, hrun', h.increasing hchain hafter hsubp,
    h'.increasing hchain hafter hsubq, ?_⟩
  intro last hlast round hround
  refine getEpoch_congr h.sorted h'.sorted fun e he => ?_
  rw [h.mem_iff, h'.mem_iff]
  refine or_congr_right (exists_congr fun b => and_congr_left fun hb => ?_)
  obtain ⟨R, rfl⟩ := prefix_of_prefix_length_le hP hQ hle
  rw [hp, hq, mem_append, or_iff_left_of_imp]
  -- a block after `P` starts its epoch too late
  intro hR
  have hlater := (pairwise_append.mp (hchain.sublist hQ.sublist)).2.2 last
    (mem_of_getLast? hlast) b hR
  grind [Before, nextStart]

/-- Epochs of two blocks. A node that was restarted at block 2 has come to block 3, another one to
block 5. -/
theorem schedule_agrees_restarted :
    ∃ em em', scheduleAll ⟨2, 3, [(1, 0)]⟩ [(1, 2), (2, 3), (1, 2), (2, 3), (3, 5)] = .ok em ∧
      scheduleAll ⟨2, 3, [(1, 0)]⟩ [(1, 2), (2, 3), (3, 5), (4, 6), (5, 9)] = .ok em' ∧
      em.epochStarts.Pairwise Before ∧ em'.epochStarts.Pairwise Before ∧
      ∀ last ∈ [(1, 2), (2, 3), (3, 5)].getLast?, ∀ round ≤ last.2 + 3,
        em.getEpoch round = em'.getEpoch round :=
  schedule_agrees 2 3 0 (by simp [Before]) (by decide) ⟨[(4, 6), (5, 9)], rfl⟩ (prefix_refl _)
    (by decide) (by simp; tauto) (by simp)

end MonadBft.EpochManager
