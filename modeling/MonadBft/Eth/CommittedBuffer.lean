import MonadBft.Eth.BlockPolicy
import MonadBft.Numbered

/-!
# The buffer of committed blocks

The buffer is cut to `2 * executionDelay` blocks once it has twice as many, before the next
block is added. So it always has the latest `2 * executionDelay` blocks, or all blocks there
are, and never more than `4 * executionDelay` (`Holds`). Blocks are checked against a state
`executionDelay` blocks back, and reach back another `executionDelay` blocks for the latest
transaction of an account (`EthBlockPolicy.committedBuffer_suffices`).

The two loops over the buffer and the one over the extending blocks are one loop over the
blocks in order (`accountBaseBalance_eq`). That is also what the exactness of base balances
rests on.
-/

namespace MonadBft

open Assoc CommittedBlkBuffer EthBlockPolicy EthValidatedBlock List Numbered

variable {env : EthEnv} {block : EthValidatedBlock env}

/-- A block as the buffer has it. -/
def EthValidatedBlock.entry (block : EthValidatedBlock env) : ℕ × CommittedBlock env :=
  (block.getSeqNum, block.committed)

theorem numbered_entries {n : ℕ} {blocks : List (EthValidatedBlock env)}
    (h : Numbered getSeqNum n blocks) :
    Numbered Prod.fst n (blocks.map entry) := h.map fun _ => rfl

/-! ## What the buffer holds -/

/-- After the blocks `fed`, numbered from `n` on, the buffer holds the latest of them. -/
structure Holds (k : ℕ) (buffer : CommittedBlkBuffer env) (n : ℕ)
    (fed : List (EthValidatedBlock env)) : Prop where
  minBufferSize : buffer.minBufferSize = saturatingDouble k
  one_le : 1 ≤ n
  numbered : Numbered getSeqNum n fed
  kept : ∃ d ≤ fed.length, buffer.blocks = (fed.drop d).map entry ∧
    fed.length - d ≤ 4 * k ∧ min (2 * k) fed.length ≤ fed.length - d

section Update

variable {k n : ℕ} {buffer : CommittedBlkBuffer env} {kept fed : List (EthValidatedBlock env)}

/-- How many blocks are cut off. -/
def CommittedBlkBuffer.excess (buffer : CommittedBlkBuffer env) : ℕ :=
  if buffer.blocks.length ≥ saturatingDouble buffer.minBufferSize then
    buffer.blocks.length - buffer.minBufferSize else 0

section

variable (hblocks : buffer.blocks = kept.map entry)
  (hnum : Numbered getSeqNum n kept) (hone : 1 ≤ buffer.minBufferSize)
  (hmax : buffer.minBufferSize ≤ U64_MAX)

include hblocks hnum hone hmax

theorem cut_eq : buffer.cut (n + kept.length) = .ok ((kept.drop buffer.excess).map entry) := by
  have hlen : buffer.blocks.length = kept.length := by rw [hblocks, length_map]
  unfold cut excess
  rw [hlen]
  by_cases hcut : kept.length ≥ saturatingDouble buffer.minBufferSize
  · have hmin : buffer.minBufferSize ≤ kept.length := by
      unfold saturatingDouble at hcut
      omega
    rw [if_pos hcut, if_pos hcut]
    cases hkept : kept with
    | nil =>
      rw [hkept, length_nil] at hmin
      omega
    | cons first rest =>
      rw [← hkept, hblocks]
      have hhead : (kept.map entry).head? = some first.entry := by
        rw [hkept]
        rfl
      have hfirst : first.entry.1 = n := by
        rw [hkept] at hnum
        exact hnum.1
      have hdrop : ((kept.map entry).filter fun entry =>
          decide (first.entry.1 + (kept.length - buffer.minBufferSize) ≤ entry.1)) =
          (kept.drop (kept.length - buffer.minBufferSize)).map entry := by
        rw [hfirst, (numbered_entries hnum).filter_le, Nat.add_sub_cancel_left, map_drop]
      rw [hhead]
      dsimp only
      rw [hdrop]
      have hlength : ((kept.drop (kept.length - buffer.minBufferSize)).map
          entry).length = buffer.minBufferSize := by
        rw [length_map, length_drop]
        omega
      cases hlast : ((kept.drop (kept.length - buffer.minBufferSize)).map
          entry).getLast? with
      | none =>
        rw [List.getLast?_eq_none_iff.mp hlast, length_nil] at hlength
        omega
      | some last =>
        have hnumber := (numbered_entries
          (hnum.drop (kept.length - buffer.minBufferSize))).getLast? hlast
        dsimp only
        rw [if_neg (by omega), if_neg (by omega)]
  · rw [if_neg hcut, if_neg hcut, drop_zero, hblocks]

/-- The next block goes to the end of what is left. -/
theorem updateCommittedBlock_eq (hnext : block.getSeqNum = n + kept.length) :
    buffer.updateCommittedBlock block = .ok { buffer with
      blocks := (kept.drop buffer.excess ++ [block]).map entry } := by
  have hlast : (buffer.blocks.getLast?.any fun last =>
      decide (last.1 + 1 ≠ block.getSeqNum)) = false := by
    rw [hblocks]
    cases h : (kept.map entry).getLast? with
    | none => rfl
    | some last =>
      have := (numbered_entries hnum).getLast? h
      simp [hnext, this]
  have hlt : ∀ e ∈ (kept.drop buffer.excess).map entry, e.1 < block.getSeqNum := by
    intro e he
    obtain ⟨b, hb, rfl⟩ := mem_map.mp he
    rw [hnext]
    exact (hnum.bounds (mem_of_mem_drop hb)).2
  have hnone : get? ((kept.drop buffer.excess).map entry)
      block.getSeqNum = none := get?_eq_none fun entry hentry => (hlt entry hentry).ne
  unfold CommittedBlkBuffer.updateCommittedBlock
  dsimp only
  rw [hlast, if_neg Bool.false_ne_true, hnext, cut_eq hblocks hnum hone hmax]
  rw [hnext] at hnone hlt
  change (if _ then _ else _) = _
  rw [hnone, if_neg (by simp), insert_of_lt hlt, map_append, map_singleton, entry, hnext]
  rfl

end

theorem saturatingDouble_bounds (hk : 1 ≤ k) :
    1 ≤ saturatingDouble k ∧ saturatingDouble k ≤ U64_MAX := by
  have : 1 ≤ U64_MAX := by decide
  unfold saturatingDouble
  omega

/-- Adding the next block works, and the buffer holds the latest blocks again. -/
theorem Holds.updateCommittedBlock (h : Holds k buffer n fed) (hk : 1 ≤ k)
    (hnext : block.getSeqNum = n + fed.length) (hfits : block.getSeqNum ≤ U64_MAX) :
    ∃ buffer', buffer.updateCommittedBlock block = .ok buffer' ∧
      Holds k buffer' n (fed ++ [block]) := by
  obtain ⟨d, hd, hblocks, hle, hge⟩ := h.kept
  obtain ⟨hone, hmax⟩ := saturatingDouble_bounds hk
  rw [← h.minBufferSize] at hone hmax
  have hlen : (fed.drop d).length = fed.length - d := length_drop
  have hsize : buffer.blocks.length = fed.length - d := by rw [hblocks, length_map, hlen]
  have hexcess : d + buffer.excess ≤ fed.length := by
    unfold excess
    split <;> omega
  have hupdate := updateCommittedBlock_eq hblocks (h.numbered.drop d) hone hmax
    (hnext.trans (by rw [hlen]; omega))
  refine ⟨_, hupdate, h.minBufferSize, h.one_le, ?_, d + buffer.excess, ?_, ?_, ?_, ?_⟩
  · exact append_iff.mpr ⟨h.numbered, hnext, trivial⟩
  · rw [length_append, length_singleton]
    omega
  · rw [drop_drop, drop_append_of_le_length hexcess]
  · have hfour : buffer.minBufferSize ≤ 2 * k := by
      rw [h.minBufferSize]
      unfold saturatingDouble
      omega
    rw [length_append, length_singleton]
    unfold excess saturatingDouble
    split <;> omega
  · -- A buffer that is cut has sequence numbers to spare, so its size has not saturated.
    have hmin := h.minBufferSize
    unfold saturatingDouble at hmin
    rw [length_append, length_singleton]
    unfold excess saturatingDouble
    split <;> omega

end Update

/-! ## The policy -/

/-- The policy has committed the blocks `fed`, numbered from `n` on. -/
structure Keeps (k : ℕ) (policy : EthBlockPolicy env) (n : ℕ)
    (fed : List (EthValidatedBlock env)) : Prop where
  delay : policy.executionDelay = k
  lastCommit : policy.lastCommit + 1 = n + fed.length
  holds : Holds k policy.committedCache n fed

section Policy

variable {k n : ℕ} {policy : EthBlockPolicy env} {fed blocks : List (EthValidatedBlock env)}

variable (env) in
theorem keeps_new (k : ℕ) : Keeps k (EthBlockPolicy.new env GENESIS_SEQ_NUM k) 1 [] where
  delay := rfl
  lastCommit := rfl
  holds := ⟨rfl, le_rfl, trivial, 0, le_rfl, rfl, by simp, by simp⟩

theorem Keeps.updateCommittedBlock (h : Keeps k policy n fed) (hk : 1 ≤ k)
    (hnext : block.getSeqNum = n + fed.length) (hfits : block.getSeqNum ≤ U64_MAX) :
    ∃ policy', policy.updateCommittedBlock block = .ok policy' ∧
      Keeps k policy' n (fed ++ [block]) := by
  obtain ⟨buffer', hbuffer, hholds⟩ := h.holds.updateCommittedBlock hk hnext hfits
  have hlast := h.lastCommit
  refine ⟨⟨block.getSeqNum, buffer', policy.executionDelay⟩, ?_, h.delay, ?_, hholds⟩
  · unfold EthBlockPolicy.updateCommittedBlock
    rw [if_neg (by omega), hbuffer]
    rfl
  · change block.getSeqNum + 1 = _
    rw [length_append, length_singleton, hnext]
    omega

theorem Keeps.commit (hk : 1 ≤ k) (h : Keeps k policy n fed)
    (hnum : Numbered getSeqNum (n + fed.length) blocks)
    (hfits : n + fed.length + blocks.length ≤ U64_MAX + 1) :
    ∃ policy', blocks.foldlM EthBlockPolicy.updateCommittedBlock policy = .ok policy' ∧
      Keeps k policy' n (fed ++ blocks) := by
  induction blocks generalizing policy fed with
  | nil =>
    rw [append_nil]
    exact ⟨policy, rfl, h⟩
  | cons block blocks ih =>
    obtain ⟨hblock, hblocks⟩ := hnum
    rw [length_cons] at hfits
    obtain ⟨policy₁, hupdate, hkeeps⟩ := h.updateCommittedBlock hk hblock (by omega)
    have hlen : n + (fed ++ [block]).length = n + fed.length + 1 := by simp [Nat.add_assoc]
    obtain ⟨policy', hrun, hkeeps'⟩ := ih hkeeps (by rw [hlen]; exact hblocks)
      (by rw [hlen]; omega)
    rw [append_assoc] at hkeeps'
    exact ⟨policy', foldlM_cons_eq_ok.mpr ⟨policy₁, hupdate, hrun⟩, hkeeps'⟩

/-- The loop of a reset. The last commit is right as soon as there is a block. -/
theorem Holds.resetBlocks (hk : 1 ≤ k) (hdelay : policy.executionDelay = k)
    (h : Holds k policy.committedCache n fed)
    (hlast : fed ≠ [] → policy.lastCommit + 1 = n + fed.length)
    (hnum : Numbered getSeqNum (n + fed.length) blocks)
    (hfits : n + fed.length + blocks.length ≤ U64_MAX + 1) (hne : fed ++ blocks ≠ []) :
    ∃ policy', blocks.foldlM resetBlock policy = .ok policy' ∧
      Keeps k policy' n (fed ++ blocks) := by
  induction blocks generalizing policy fed with
  | nil =>
    rw [append_nil] at hne ⊢
    exact ⟨policy, rfl, hdelay, hlast hne, h⟩
  | cons block blocks ih =>
    obtain ⟨hblock, hblocks⟩ := hnum
    rw [length_cons] at hfits
    obtain ⟨buffer', hbuffer, hholds⟩ := h.updateCommittedBlock hk hblock (by omega)
    have hlen : n + (fed ++ [block]).length = n + fed.length + 1 := by simp [Nat.add_assoc]
    have hreset : policy.resetBlock block =
        .ok ⟨block.getSeqNum, buffer', policy.executionDelay⟩ := by
      unfold resetBlock
      rw [hbuffer]
      rfl
    obtain ⟨policy', hrun, hkeeps⟩ := @ih ⟨block.getSeqNum, buffer', policy.executionDelay⟩
      (fed ++ [block]) hdelay hholds (fun _ => by rw [hlen, ← hblock])
      (by rw [hlen]; exact hblocks) (by rw [hlen]; omega) (by simp)
    rw [append_assoc] at hkeeps
    exact ⟨policy', foldlM_cons_eq_ok.mpr ⟨_, hreset, hrun⟩, hkeeps⟩

theorem keeps_reset (hk : 1 ≤ k) (hdelay : policy.executionDelay = k)
    (hmin : policy.committedCache.minBufferSize = saturatingDouble k) (hone : 1 ≤ n)
    (hnum : Numbered getSeqNum n blocks) (hne : blocks ≠ [])
    (hfits : n + blocks.length ≤ U64_MAX + 1) :
    ∃ policy', policy.reset blocks = .ok policy' ∧ Keeps k policy' n blocks :=
  @Holds.resetBlocks _ k n _ [] _ hk hdelay ⟨hmin, hone, trivial, 0, le_rfl, rfl, by simp, by simp⟩
    (fun h => absurd rfl h) hnum (by simpa using hfits) hne

end Policy

/-! ## The blocks that are read -/

/-- The committed blocks that are kept, followed by the extending ones. They are numbered from
`c` on, and go back far enough. -/
structure Window (policy : EthBlockPolicy env) (c : ℕ)
    (kept extending : List (EthValidatedBlock env)) : Prop where
  blocks : policy.committedCache.blocks = kept.map entry
  numbered : Numbered getSeqNum c (kept ++ extending)
  lastCommit : policy.lastCommit + 1 = c + kept.length
  one_le : 1 ≤ c
  reaches : c ≤ max 1 (policy.lastCommit + 2 - 2 * policy.executionDelay)

/-- What was committed goes back far enough if it started at the first block, or with enough
blocks. -/
theorem Keeps.window {k n : ℕ} {policy : EthBlockPolicy env}
    {fed extending : List (EthValidatedBlock env)} (h : Keeps k policy n fed)
    (hstart : n = 1 ∨ 2 * k ≤ fed.length)
    (hext : Numbered getSeqNum (policy.lastCommit + 1) extending) :
    ∃ d ≤ fed.length, Window policy (n + d) (fed.drop d) extending ∧
      (fed.drop d).length ≤ 4 * k := by
  obtain ⟨d, hd, hblocks, hle, hge⟩ := h.holds.kept
  have hlen : (fed.drop d).length = fed.length - d := length_drop
  have hlast := h.lastCommit
  have hone := h.holds.one_le
  refine ⟨d, hd, ⟨hblocks, ?_, by rw [hlen]; omega, by omega, ?_⟩, by rw [hlen]; exact hle⟩
  · refine append_iff.mpr ⟨h.holds.numbered.drop d, ?_⟩
    have : n + d + (fed.drop d).length = policy.lastCommit + 1 := by
      omega
    rw [this]
    exact hext
  · rw [h.delay]
    rcases hstart with rfl | hstart <;> omega

section Window

variable {policy : EthBlockPolicy env} {c seqNum : ℕ}
  {kept extending : List (EthValidatedBlock env)}

/-- A policy that has committed a chain up to some block has a window on the chain. -/
theorem commit_window {k : ℕ} (hk : 1 ≤ k) {committed extending : List (EthValidatedBlock env)}
    (hnum : Numbered getSeqNum 1 (committed ++ extending))
    (hfits : (committed ++ extending).length ≤ U64_MAX) :
    ∃ policy, committed.foldlM EthBlockPolicy.updateCommittedBlock
        (.new env GENESIS_SEQ_NUM k) = .ok policy ∧
      policy.executionDelay = k ∧ policy.lastCommit = committed.length ∧
      ∃ d ≤ committed.length, Window policy (1 + d) (committed.drop d) extending := by
  obtain ⟨hcommitted, hextending⟩ := append_iff.mp hnum
  rw [length_append] at hfits
  obtain ⟨policy, hrun, hkeeps⟩ := (keeps_new env k).commit hk
    (by simpa using hcommitted) (by simp only [length_nil]; omega)
  rw [nil_append] at hkeeps
  have hlast := hkeeps.lastCommit
  obtain ⟨d, hd, hwindow, -⟩ := @Keeps.window _ _ _ _ _ extending hkeeps (.inl rfl)
    (by rw [hlast]; exact hextending)
  exact ⟨policy, hrun, hkeeps.delay, by omega, d, hd, hwindow⟩

/-- Where the state of a block is looked up. -/
def EthValidatedBlock.index (block : EthValidatedBlock env) (isFinalized : Bool) :
    BlockLookupIndex env :=
  ⟨block.header.id, block.getSeqNum, block.header.blockRound, isFinalized⟩

theorem Window.get?_committed (h : Window policy c kept extending) (hlow : c ≤ seqNum)
    (hhigh : seqNum ≤ policy.lastCommit) :
    ∃ block ∈ kept, block.getSeqNum = seqNum ∧
      get? policy.committedCache.blocks seqNum = some block.committed := by
  have hlast := h.lastCommit
  obtain ⟨entry, hmem, hkey, hfind⟩ :=
    (numbered_entries (append_iff.mp h.numbered).1).find?_eq hlow
      (by rw [length_map]; omega)
  obtain ⟨block, hblock, rfl⟩ := mem_map.mp hmem
  refine ⟨block, hblock, hkey, ?_⟩
  unfold get?
  rw [h.blocks, hfind]
  rfl

/-- The state of every block of the window can be looked up. -/
theorem Window.getBlockIndex (h : Window policy c kept extending) (hlow : c ≤ seqNum)
    (hhigh : seqNum < c + (kept ++ extending).length) :
    ∃ block ∈ kept ++ extending, block.getSeqNum = seqNum ∧
      policy.getBlockIndex (some extending) seqNum =
        .ok (block.index (decide (seqNum ≤ policy.lastCommit))) := by
  have hone := h.one_le
  have hlast := h.lastCommit
  unfold EthBlockPolicy.getBlockIndex
  by_cases hcommitted : seqNum ≤ policy.lastCommit
  · obtain ⟨block, hblock, rfl, hget⟩ := h.get?_committed hlow hcommitted
    refine ⟨block, mem_append_left _ hblock, rfl, ?_⟩
    have hne : block.getSeqNum ≠ GENESIS_SEQ_NUM := by
      unfold GENESIS_SEQ_NUM
      omega
    rw [if_pos hcommitted, if_neg hne, hget, decide_eq_true hcommitted]
    rfl
  · rw [length_append] at hhigh
    obtain ⟨block, hblock, rfl, hfind⟩ :=
      (append_iff.mp h.numbered).2.find?_eq (m := seqNum) (by omega) (by omega)
    refine ⟨block, mem_append_right _ hblock, rfl, ?_⟩
    rw [if_neg hcommitted, decide_eq_false hcommitted]
    dsimp only
    rw [hfind]
    rfl

/-! ## One loop over the window -/

/-- Bring an account up to the next block: before `reserveStart` only its latest transaction
is noted, from there on it is charged. -/
def applyBlock (executionDelay reserveStart : ℕ) (address : Address) (state : AccountBalanceState)
    (block : EthValidatedBlock env) : Except PolicyFailure AccountBalanceState :=
  match block.txnFees address with
  | none => .ok state
  | some fee =>
    if block.getSeqNum < reserveStart then
      .ok { state with
        blockSeqnumOfLatestTxn := max state.blockSeqnumOfLatestTxn block.getSeqNum }
    else
      ((block.header.validator executionDelay).tryApplyBlockFees state fee).mapError fun error =>
        .error (.blockPolicyBlockValidatorError error)

variable {k r : ℕ} {address : Address} {state : AccountBalanceState}
  {block : EthValidatedBlock env}

theorem noteCommitted_eq (hr : block.getSeqNum < r) :
    noteCommitted address (state, block.getSeqNum) block.entry =
      (applyBlock k r address state block).map fun state => (state, block.getSeqNum + 1) := by
  have hfees : block.entry.2.fees address = block.txnFees address := rfl
  have hseq : block.entry.2.seqNum = block.getSeqNum := rfl
  have hkey : ¬block.entry.1 ≠ (state, block.getSeqNum).2 := not_not_intro rfl
  unfold noteCommitted applyBlock
  rw [if_neg hkey, hfees, hseq]
  cases block.txnFees address with
  | none => rfl
  | some fee =>
    dsimp only
    rw [if_pos hr]
    by_cases hlatest : state.blockSeqnumOfLatestTxn < block.getSeqNum
    · rw [if_pos (by simpa using hlatest), max_eq_right hlatest.le]
      rfl
    · rw [if_neg (by simpa using hlatest), max_eq_left (not_lt.mp hlatest)]
      rfl

theorem chargeCommitted_eq (hr : r ≤ block.getSeqNum) :
    chargeCommitted k address (state, block.getSeqNum) block.entry =
      (applyBlock k r address state block).map fun state => (state, block.getSeqNum + 1) := by
  have hfees : block.entry.2.fees address = block.txnFees address := rfl
  have hkey : ¬block.entry.1 ≠ (state, block.getSeqNum).2 := not_not_intro rfl
  have hvalidator : ⟨block.entry.2.seqNum, k, block.entry.2.baseFee,
    env.getChainRevision block.entry.2.round⟩ = block.header.validator k := rfl
  unfold chargeCommitted applyBlock
  rw [if_neg hkey, hfees]
  cases block.txnFees address with
  | none => rfl
  | some fee =>
    dsimp only
    rw [if_neg (not_lt.mpr hr), hvalidator]
    cases (block.header.validator k).tryApplyBlockFees state fee <;> rfl

theorem applyExtending_eq :
    policy.applyExtending r address (state, block.getSeqNum) block =
      (applyBlock policy.executionDelay r address state block).map fun state =>
        (state, block.getSeqNum + 1) := by
  unfold applyExtending applyBlock
  rw [if_neg (not_not_intro rfl)]
  cases block.txnFees address with
  | none => rfl
  | some fee =>
    dsimp only
    by_cases hr : block.getSeqNum < r
    · rw [if_pos hr, if_pos hr]
      by_cases hlatest : state.blockSeqnumOfLatestTxn < block.getSeqNum
      · rw [if_pos hlatest, max_eq_right hlatest.le]
        rfl
      · rw [if_neg hlatest, max_eq_left (not_lt.mp hlatest)]
        rfl
    · rw [if_neg hr, if_neg hr]
      cases (block.header.validator policy.executionDelay).tryApplyBlockFees state fee <;> rfl

theorem except_map_bind {ε σ τ υ : Type} (x : Except ε σ) (f : σ → τ) (g : τ → Except ε υ) :
    (x.map f >>= g) = x >>= fun a => g (f a) := by
  cases x <;> rfl

/-- The two loops over the buffer. -/
theorem updateAccountBalance_eq {e : ℕ} (hblocks : policy.committedCache.blocks = kept.map entry)
    (hnum : Numbered getSeqNum c kept) (hc : c ≤ e) (her : e ≤ r) :
    policy.committedCache.updateAccountBalance state address k e r =
      ((kept.drop (e - c)).foldlM (applyBlock k r address) state).map fun state =>
        (state, e + (kept.drop (e - c)).length) := by
  set low := (kept.filter fun block => decide (e ≤ block.getSeqNum) && decide (block.getSeqNum < r))
  set high := kept.filter fun block => decide (r ≤ block.getSeqNum)
  have hdrop : low ++ high = kept.drop (e - c) := by
    rw [← hnum.filter_le]
    exact hnum.filter_append_filter her
  have hnumber : Numbered getSeqNum e (low ++ high) := by
    have := hnum.drop (e - c)
    rw [Nat.add_sub_cancel' hc] at this
    rw [hdrop]
    exact this
  obtain ⟨hlow, hhigh⟩ := append_iff.mp hnumber
  unfold updateAccountBalance
  rw [← hdrop, hblocks, filter_map, filter_map, foldlM_map, foldlM_append]
  have hfirst : low.foldlM (fun s block =>
      noteCommitted address s (entry block)) (state, e) =
      (low.foldlM (applyBlock k r address) state).map fun state => (state, e + low.length) :=
    foldlM_counted (fun block hblock s => noteCommitted_eq
      (of_decide_eq_true (Bool.and_eq_true_iff.mp (mem_filter.mp hblock).2).2)) hlow state
  have hsecond : ∀ s, high.foldlM (fun s block =>
      chargeCommitted k address s (entry block))
        (s, e + low.length) =
      (high.foldlM (applyBlock k r address) s).map fun state =>
        (state, e + low.length + high.length) :=
    foldlM_counted (fun block hblock s => chargeCommitted_eq
      (of_decide_eq_true (mem_filter.mp hblock).2)) hhigh
  refine (congrArg (fun x => x >>= _) hfirst).trans ?_
  rw [except_map_bind, length_append, ← Nat.add_assoc]
  cases low.foldlM (applyBlock k r address) state with
  | error failure => rfl
  | ok s₁ => exact (foldlM_map ..).trans (hsecond s₁)

/-- The first block of interest is not before the window. -/
theorem Window.le_emptyingTxnCheckStart (h : Window policy c kept extending)
    (hk : 1 ≤ policy.executionDelay) (hseq : policy.lastCommit < seqNum) :
    c ≤ policy.emptyingTxnCheckStart (policy.baseSeqNum seqNum + 1) ∧
      policy.emptyingTxnCheckStart (policy.baseSeqNum seqNum + 1) ≤
        policy.baseSeqNum seqNum + 1 := by
  have hreaches := h.reaches
  unfold emptyingTxnCheckStart baseSeqNum GENESIS_SEQ_NUM
  dsimp only
  split <;> omega

/-- The balance of an account before a block is that of the base block, brought forward by one
loop over the blocks of interest. -/
theorem Window.accountBaseBalance (h : Window policy c kept extending)
    (hk : 1 ≤ policy.executionDelay) (hseq : policy.lastCommit < seqNum)
    (state : AccountBalanceState) (address : Address) :
    policy.accountBaseBalance (policy.baseSeqNum seqNum) (some extending) state address =
      ((kept ++ extending).filter fun block => decide
        (policy.emptyingTxnCheckStart (policy.baseSeqNum seqNum + 1) ≤ block.getSeqNum)).foldlM
        (applyBlock policy.executionDelay (policy.baseSeqNum seqNum + 1) address)
        { state with blockSeqnumOfLatestTxn :=
            policy.emptyingTxnCheckStart (policy.baseSeqNum seqNum + 1) - 1 } := by
  obtain ⟨hce, her⟩ := h.le_emptyingTxnCheckStart hk hseq
  have hone := h.one_le
  obtain ⟨hkept, hext⟩ := append_iff.mp h.numbered
  set r := policy.baseSeqNum seqNum + 1
  set e := policy.emptyingTxnCheckStart r
  -- The extending blocks are entered where the buffer ends, or at the first block of interest.
  have hlen : (kept.drop (e - c)).length = kept.length - (e - c) := length_drop
  have hskip : (extending.dropWhile fun block =>
      decide (block.getSeqNum < e + (kept.drop (e - c)).length)) =
      extending.drop (e - (c + kept.length)) := by
    rw [hext.dropWhile_lt, hlen]
    congr 1
    omega
  have hnext : Numbered getSeqNum (e + (kept.drop (e - c)).length)
      (extending.drop (e - (c + kept.length))) := by
    have := hext.drop (e - (c + kept.length))
    have heq : c + kept.length + (e - (c + kept.length)) = e + (kept.drop (e - c)).length := by
      omega
    rwa [heq] at this
  unfold EthBlockPolicy.accountBaseBalance
  dsimp only
  rw [filter_append, hkept.filter_le, hext.filter_le, foldlM_append,
    if_pos (show e > GENESIS_SEQ_NUM from hone.trans hce),
    updateAccountBalance_eq h.blocks hkept hce her, except_map_bind]
  cases (kept.drop (e - c)).foldlM (applyBlock policy.executionDelay r address)
      { state with blockSeqnumOfLatestTxn := e - 1 } with
  | error failure => rfl
  | ok state₁ =>
    refine (congrArg (fun blocks => blocks.foldlM (policy.applyExtending r address)
      (state₁, e + (kept.drop (e - c)).length) >>= fun state => .ok state.1) hskip).trans ?_
    rw [foldlM_counted (fun block _ s => applyExtending_eq) hnext state₁, except_map_bind]
    exact bind_pure _

/-! ## No assertion is reached -/

theorem NoPanic.ok {α : Type} (a : α) : NoPanic (.ok a) := fun _ h => by cases h

theorem NoPanic.bind {α β : Type} {x : Except PolicyFailure α} {f : α → Except PolicyFailure β}
    (hx : NoPanic x) (hf : ∀ a, x = .ok a → NoPanic (f a)) : NoPanic (x >>= f) := by
  cases x with
  | error failure => exact fun p hp => hx p (congrArg Except.error (Except.error.inj hp))
  | ok a => exact hf a rfl

theorem NoPanic.mapError {ε α : Type} (x : Except ε α) (f : ε → BlockPolicyError) :
    NoPanic (x.mapError fun e => .error (f e)) := by
  cases x <;> exact fun _ h => by cases h

theorem NoPanic.foldlM {α σ : Type} {f : σ → α → Except PolicyFailure σ}
    (hf : ∀ s a, NoPanic (f s a)) (l : List α) (s : σ) : NoPanic (l.foldlM f s) := by
  induction l generalizing s with
  | nil => exact .ok s
  | cons a l ih =>
    exact (hf s a).bind fun s₁ _ => ih s₁

theorem NoPanic.mapM {α β : Type} {f : α → Except PolicyFailure β} (hf : ∀ a, NoPanic (f a))
    (l : List α) : NoPanic (l.mapM f) := by
  induction l with
  | nil => exact .ok []
  | cons a l ih =>
    rw [mapM_cons]
    exact (hf a).bind fun _ _ => ih.bind fun _ _ => .ok _

theorem noPanic_applyBlock (state : AccountBalanceState) (block : EthValidatedBlock env) :
    NoPanic (applyBlock k r address state block) := by
  unfold applyBlock
  split
  · exact .ok _
  · split
    · exact .ok _
    · exact .mapError _ _

variable (h : Window policy c kept extending) (hk : 1 ≤ policy.executionDelay)
  (hseq : policy.lastCommit < seqNum) (hlen : policy.lastCommit + 1 + extending.length = seqNum)

include h hk hseq hlen

/-- The state of the base block can be looked up. -/
theorem Window.getBlockIndex_base :
    ∃ index, policy.getBlockIndex (some extending) (policy.baseSeqNum seqNum) = .ok index := by
  have hlast := h.lastCommit
  have hreaches := h.reaches
  by_cases hzero : policy.baseSeqNum seqNum = GENESIS_SEQ_NUM
  · refine ⟨⟨env.GENESIS_BLOCK_ID, GENESIS_SEQ_NUM, GENESIS_ROUND, true⟩, ?_⟩
    unfold EthBlockPolicy.getBlockIndex
    rw [if_pos (hzero.le.trans (Nat.zero_le _)), if_pos hzero]
  have hbase : policy.baseSeqNum seqNum = seqNum - policy.executionDelay := by
    unfold baseSeqNum
    omega
  unfold GENESIS_SEQ_NUM at hzero
  obtain ⟨block, -, -, hindex⟩ := h.getBlockIndex
    (show c ≤ policy.baseSeqNum seqNum by omega) (by rw [length_append]; omega)
  exact ⟨_, hindex⟩

theorem Window.noPanic_computeAccountBaseBalances (backend : StateBackend env)
    (addresses : List Address) :
    NoPanic (policy.computeAccountBaseBalances seqNum backend (some extending) addresses) := by
  obtain ⟨index, hindex⟩ := h.getBlockIndex_base hk hseq hlen
  unfold computeAccountBaseBalances getAccountStatuses
  dsimp only
  rw [hindex]
  refine NoPanic.bind (.ok index) fun index' _ => ?_
  refine NoPanic.bind (NoPanic.bind (.ok index) fun _ _ => .mapError _ _) fun statuses _ => ?_
  refine NoPanic.bind (.mapM (fun address => ?_) addresses) fun _ _ => .ok _
  rw [h.accountBaseBalance hk hseq]
  exact NoPanic.bind (.foldlM noPanic_applyBlock _ _) fun _ _ => .ok _

theorem Window.noPanic_getExpectedExecutionResults (backend : StateBackend env) :
    NoPanic (policy.getExpectedExecutionResults seqNum extending backend) := by
  unfold getExpectedExecutionResults
  split
  · exact .ok []
  next hdelay =>
    obtain ⟨index, hindex⟩ := h.getBlockIndex_base hk hseq hlen
    have hbase : policy.baseSeqNum seqNum = seqNum - policy.executionDelay := by
      unfold baseSeqNum
      omega
    rw [← hbase, hindex]
    exact NoPanic.bind (.ok index) fun _ _ => NoPanic.bind (.mapError _ _) fun _ _ => .ok _

end Window

/-! ## The buffer suffices -/

variable (env) in
/-- A policy starts with no blocks, or with at least `2 * k` consecutive ones. -/
inductive StartsWith (k : ℕ) :
    Except PolicyFailure (EthBlockPolicy env) → ℕ → List (EthValidatedBlock env) → Prop
  | genesis : StartsWith k (.ok (.new env GENESIS_SEQ_NUM k)) 1 []
  | reset {policy : EthBlockPolicy env} {n : ℕ} {blocks : List (EthValidatedBlock env)}
      (hdelay : policy.executionDelay = k)
      (hmin : policy.committedCache.minBufferSize = saturatingDouble k) (hone : 1 ≤ n)
      (hnum : Numbered getSeqNum n blocks) (hlen : 2 * k ≤ blocks.length) :
      StartsWith k (policy.reset blocks) n blocks

/-- Committing consecutive blocks, from the genesis block or after a reset, reaches no
assertion, and the buffer has what the next blocks need. -/
theorem EthBlockPolicy.committedBuffer_suffices {k : ℕ} (hk : 1 ≤ k)
    {start : Except PolicyFailure (EthBlockPolicy env)} {n : ℕ}
    {fed blocks : List (EthValidatedBlock env)} (hstart : StartsWith env k start n fed)
    (hnum : Numbered EthValidatedBlock.getSeqNum (n + fed.length) blocks)
    (hfits : n + fed.length + blocks.length ≤ U64_MAX + 1) :
    ∃ policy, (start >>= fun policy => blocks.foldlM updateCommittedBlock policy) = .ok policy ∧
      policy.lastCommit + 1 = n + fed.length + blocks.length ∧
      (∃ first, Numbered Prod.fst first policy.committedCache.blocks ∧
        first + policy.committedCache.blocks.length = policy.lastCommit + 1) ∧
      (∀ seqNum, max 1 (policy.lastCommit + 2 - 2 * k) ≤ seqNum → seqNum ≤ policy.lastCommit →
        (get? policy.committedCache.blocks seqNum).isSome) ∧
      policy.committedCache.blocks.length ≤ 4 * k ∧
      ∀ (seqNum : ℕ) (extending : List (EthValidatedBlock env)), policy.lastCommit < seqNum →
        Numbered EthValidatedBlock.getSeqNum (policy.lastCommit + 1) extending →
        policy.lastCommit + 1 + extending.length = seqNum →
        ∀ (backend : StateBackend env) (addresses : List Address),
          NoPanic (policy.getBlockIndex (some extending) (policy.baseSeqNum seqNum)) ∧
          NoPanic (policy.computeAccountBaseBalances seqNum backend (some extending) addresses) ∧
          NoPanic (policy.getExpectedExecutionResults seqNum extending backend) := by
  have hstarted : ∃ policy₀, start = .ok policy₀ ∧ Keeps k policy₀ n fed := by
    cases hstart with
    | genesis => exact ⟨_, rfl, keeps_new env k⟩
    | reset hdelay hmin hone hfed hlen =>
      refine keeps_reset hk hdelay hmin hone hfed (fun hnil => ?_) (by omega)
      rw [hnil, length_nil] at hlen
      omega
  have hfull : n = 1 ∨ 2 * k ≤ (fed ++ blocks).length := by
    cases hstart with
    | genesis => exact .inl rfl
    | reset _ _ _ _ hlen => exact .inr (by rw [length_append]; omega)
  obtain ⟨policy₀, rfl, hkeeps₀⟩ := hstarted
  obtain ⟨policy, hrun, hkeeps⟩ := hkeeps₀.commit hk hnum hfits
  obtain ⟨d, hd, hwindow, hshort⟩ := @Keeps.window _ _ _ _ _ [] hkeeps hfull trivial
  have hdelay := hkeeps.delay
  have hlength : policy.committedCache.blocks.length = ((fed ++ blocks).drop d).length := by
    rw [hwindow.blocks, length_map]
  refine ⟨policy, hrun, ?_, ⟨n + d, ?_, ?_⟩, ?_, ?_, ?_⟩
  · rw [hkeeps.lastCommit, length_append, Nat.add_assoc]
  · rw [hwindow.blocks]
    exact numbered_entries (append_iff.mp hwindow.numbered).1
  · rw [hlength, hwindow.lastCommit]
  · intro seqNum hlow hhigh
    have hreaches := hwindow.reaches
    rw [hdelay] at hreaches
    obtain ⟨block, -, -, hget⟩ := hwindow.get?_committed (hreaches.trans hlow) hhigh
    rw [hget]
    rfl
  · rw [hlength]
    exact hshort
  · intro seqNum extending hseq hext hlen backend addresses
    obtain ⟨d', -, hwindow', -⟩ := hkeeps.window hfull hext
    rw [← hdelay] at hk
    obtain ⟨index, hindex⟩ := hwindow'.getBlockIndex_base hk hseq hlen
    refine ⟨?_, hwindow'.noPanic_computeAccountBaseBalances hk hseq hlen backend addresses,
      hwindow'.noPanic_getExpectedExecutionResults hk hseq hlen backend⟩
    rw [hindex]
    exact .ok index

/-- With a delay of one block, five blocks are kept as the last three. -/
theorem EthBlockPolicy.committedBuffer_suffices_fiveBlocks :
    ∃ policy, ([1, 2, 3, 4, 5].map sampleBlock).foldlM updateCommittedBlock
        (.new sampleEnv GENESIS_SEQ_NUM 1) = .ok policy ∧
      policy.lastCommit + 1 = 6 ∧ policy.committedCache.blocks.length ≤ 4 := by
  obtain ⟨policy, hrun, hlast, -, -, hlen, -⟩ :=
    @EthBlockPolicy.committedBuffer_suffices _ _ le_rfl _ _ _ ([1, 2, 3, 4, 5].map sampleBlock)
      .genesis (by decide) (by decide)
  exact ⟨policy, hrun, hlast, hlen⟩

end MonadBft
